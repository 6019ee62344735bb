import Reshape.Proofs.Grammar.Pacing
import Reshape.Proofs.Parse.Stands

/-!
# Parsing comes to an end

A text is read to its end whatever is wrong with it, unless a type is read at the word `for` without
a binder of lifetimes behind it. Such a type enters itself with nothing read, and so on.

* `not_runs_of_bareFor` is that type, and `Runs.not_bareFor` says that a run which comes to an end
  never meets it.
* `exists_runs` is the converse. Names inside names that read nothing rank below each other, and
  there are four ranks; so names are nested at most four times as deep as there are tokens left.
  It is by induction on the depth, on the term inside, and on what is left for repetitions.
* `Runs.run_eq` and `runs_of_run` say that the bounds of `Grammar.run` make no difference.
* `Grammar.Progress` puts together what holds of a grammar for whole texts, and `parsers_progress`
  is the result for files and for single expressions.
-/

namespace Reshape

open ParserState Grammar

/-- The form that a rule names, whatever its parameters. -/
def Rule.form : Rule → Rule
  | .expr _ _ => .expr 0 false
  | .atom _ => .atom false
  | r => r

/-- The parameters of a form do not matter for its rank. -/
theorem Rule.rank_eq_of_form {r q : Rule} (h : r.form = q.form) (ts : List Token) :
    r.rank ts = q.rank ts := by
  cases r <;> cases q <;> first | rfl | cases h

namespace Grammar

variable {d ρ : Nat} {ts : List Token} {α σ : Type} {g : Grammar α} {P : α → Prop}
  {s s' t : ParserState} {a : α}

/-! ## Types that never end -/

/-- A type at the word `for` without a binder enters itself, and so never ends. -/
theorem not_runs_of_bareFor {found : Bool} (h : BareFor s.rest) :
    ¬ Runs d Rule.type.grammar s found t := by
  intro hrun
  induction d using Nat.strong_induction_on generalizing found t with
  | _ d ih =>
    rw [Rule.grammar, runs_bind] at hrun
    obtain ⟨_, s', hbody, -⟩ := hrun
    have hcall : ∃ found, Runs d (.call .type) s found s' := by
      simpa [typeBody, h.1, optForBinder, h.2, type] using hbody
    obtain ⟨_, hcall⟩ := hcall
    obtain ⟨e, rfl, hinner⟩ := runs_iff.1 hcall
    exact ih e (Nat.lt_succ_self e) hinner

/-- A run that comes to an end reads no type at the word `for` without a binder. -/
theorem Runs.not_bareFor (h : Runs d g s a t) (hs' : Meets (.enter .type s') g s) :
    ¬ BareFor s'.rest := by
  generalize hm : Moment.enter .type s' = m at hs'
  induction hs' generalizing d t with
  | first _ ih =>
    obtain ⟨_, _, hg, -⟩ := runs_iff.1 h
    exact ih hg hm
  | second hfirst _ ih =>
    obtain ⟨_, _, hg, hf⟩ := runs_iff.1 h
    obtain ⟨rfl, rfl⟩ := hfirst.unique hg
    exact ih hf hm
  | node _ ih | wrap _ ih =>
    obtain ⟨_, _, hbody, -⟩ := runs_iff.1 h
    exact ih hbody hm
  | now _ ih =>
    obtain hbody | ⟨_, _, hbody, -⟩ := runs_iff.1 h <;> exact ih hbody hm
  | later hround _ ih =>
    obtain hbody | ⟨_, _, hbody, hrest⟩ := runs_iff.1 h
    · cases (hround.unique hbody).1
    · obtain ⟨heq, rfl⟩ := hround.unique hbody
      cases heq
      exact ih hrest hm
  | round => cases hm
  | enter =>
    cases hm
    obtain ⟨_, _, hrun⟩ := runs_iff.1 h
    exact fun hbare => not_runs_of_bareFor hbare hrun
  | inside _ ih =>
    obtain ⟨_, _, hrun⟩ := runs_iff.1 h
    exact ih hrun hm

/-! ## How deep names are nested -/

/-- A repetition comes to an end if its first round does and all do that start with less left, as each
round behind which it goes on reads something. -/
theorem exists_runs_iterate {x : σ} {body : σ → Grammar (σ × Bool)}
    (hg : (iterate x body).Steady)
    (hbare : ∀ s', Meets (.enter .type s') (iterate x body) s → ¬ BareFor s'.rest)
    (hfirst : ∃ z t, Runs d (body x) s z t)
    (hlater : ∀ y s', s'.left.length < s.left.length →
      (∀ t, Meets (.enter .type t) (body y) s' → ¬ BareFor t.rest) →
      ∃ z t, Runs d (body y) s' z t) : ∃ z t, Runs d (iterate x body) s z t := by
  induction hn : s.left.length using Nat.strong_induction_on generalizing x s with
  | _ n ih =>
    subst hn
    obtain ⟨⟨y, goesOn⟩, s', hround⟩ := hfirst
    cases goesOn with
    | false => exact ⟨y, s', .last hround⟩
    | true =>
      have hlt := hround.lt_of_goesOn Rule.paced (hg.2 x s.rest)
      have hbare' : ∀ t, Meets (.enter .type t) (iterate y body) s' → ¬ BareFor t.rest :=
        fun t h => hbare t (.later hround h)
      obtain ⟨z, t, hrest⟩ := ih s'.left.length hlt (x := y) hg hbare'
        (hlater y s' hlt fun t h => hbare' t (.now h))
        (fun y t ht => hlater y t (ht.trans hlt)) rfl
      exact ⟨z, t, .again hround hrest⟩

/-- A grammar comes to an end unless it reads a type at the word `for` without a binder. Names inside
names that read nothing are nested less than four deep, so four for each significant token do. -/
theorem exists_runs (hg : g.Steady) (hidle : g.Idle ρ ts P) (hs : s.left = fromSignificant ts)
    (hbare : ∀ s', Meets (.enter .type s') g s → ¬ BareFor s'.rest)
    (hd : 4 * s.left.length + ρ ≤ d) : ∃ a t, Runs d g s a t := by
  induction d using Nat.strong_induction_on generalizing α g ρ ts P s with
  | _ d ihd =>
    induction g generalizing ρ ts s with
    | pure a => exact ⟨a, s, .pure a s⟩
    | ahead => exact ⟨_, _, .ahead s⟩
    | advance => exact ⟨_, _, .advance s⟩
    | report fault => exact ⟨_, _, .report fault s⟩
    | reportFrom fault origin note => exact ⟨_, _, .reportFrom fault origin note s⟩
    | bind g f ihg ihf =>
      obtain ⟨a, s', hfirst⟩ := ihg hg.1 (idle_bind.1 hidle) hs (fun t h => hbare t (.first h)) hd
      have hbare' : ∀ t, Meets (.enter .type t) (f a) s' → ¬ BareFor t.rest :=
        fun t h => hbare t (.second hfirst h)
      have hsecond : ∃ b t, Runs d (f a) s' b t := by
        by_cases hleft : s'.left = s.left
        · have hs' := hleft.trans hs
          have hf := hfirst.of_idle Rule.paced (idle_bind.1 hidle) hs hs'
          exact ihf a (hg.2 a) hf hs' hbare' (hleft ▸ hd)
        · -- Something was read, which pays for all ranks.
          have hlt := hfirst.left_suffix.length_le.lt_of_ne fun h =>
            hleft (hfirst.left_suffix.eq_of_length h)
          exact ihf a (hg.2 a) ((hg.2 a).idle s'.rest) rfl hbare' (by omega)
      obtain ⟨b, t, hsecond⟩ := hsecond
      exact ⟨b, t, .bind hfirst hsecond⟩
    | node body ih =>
      obtain ⟨⟨k?, a⟩, t, h⟩ := ih hg hidle (by simpa using hs) (fun t h => hbare t (.node h))
        (by simpa using hd)
      exact ⟨a, _, .node h⟩
    | wrap body ih =>
      obtain ⟨k, t, h⟩ := ih hg hidle (by simpa using hs) (fun t h => hbare t (.wrap h))
        (by simpa using hd)
      exact ⟨(), _, .wrap h⟩
    | iterate x body ih =>
      refine exists_runs_iterate hg hbare
        (ih x (hg.1 x) hidle hs (fun t h => hbare t (.now h)) hd) fun y s' hlt hbare' => ?_
      exact ih y (hg.1 y) ((hg.1 y).idle s'.rest) rfl hbare' (by omega)
    | call r =>
      have hrank := hidle.1
      obtain ⟨e, rfl⟩ : ∃ e, d = e + 1 := ⟨d - 1, by omega⟩
      have hlimit : r.limit ts = r.rank ts := by
        refine if_neg fun ⟨hr, hfor⟩ => ?_
        subst hr
        exact hbare s .enter ((bareFor_congr hs).2 hfor)
      obtain ⟨found, t, h⟩ := ihd e (Nat.lt_succ_self e) (Rule.paced r).steady
        ((Rule.paced r).idle ts) hs (fun t h => hbare t (.inside h)) (by omega)
      exact ⟨found, t, .call h⟩

/-! ## Runs with bounds -/

/-- The rounds of a repetition are as many as the tokens that are left at most, and a last one. -/
theorem repeatStep_eq {body : σ → Grammar (σ × Bool)} {x z : σ} (hg : (iterate x body).Steady)
    (hbody : ∀ {x s y t}, Runs d (body x) s y t → (body x).run (runRule d) s = (y, t))
    (h : Runs d (iterate x body) s z t) {n : Nat} (hn : s.left.length < n) :
    repeatStep (fun x s => (body x).run (runRule d) s) n x s = (z, t) := by
  induction n generalizing x s with
  | zero => exact absurd hn (Nat.not_lt_zero _)
  | succ n ih =>
    obtain hlast | ⟨y, s', hround, hrest⟩ := runs_iff.1 h
    · rw [repeatStep, hbody hlast]
    · have hlt := hround.lt_of_goesOn Rule.paced (hg.2 x s.rest)
      rw [repeatStep, hbody hround]
      exact ih (x := y) hg hrest (by omega)

/-- The runs that come to an end are those of the parser, whose bound on rounds they never reach. -/
theorem Runs.run_eq (h : Runs d g s a t) (hg : g.Steady) : g.run (runRule d) s = (a, t) := by
  induction d using Nat.strong_induction_on generalizing α g s a t with
  | _ d ihd =>
    induction g generalizing s t with
    | pure | ahead =>
      obtain ⟨rfl, rfl⟩ := runs_iff.1 h
      rfl
    | advance | report | reportFrom =>
      obtain rfl := runs_iff.1 h
      rfl
    | bind g f ihg ihf =>
      obtain ⟨_, _, hfirst, hsecond⟩ := runs_iff.1 h
      rw [run, ihg hfirst hg.1]
      exact ihf _ hsecond (hg.2 _)
    | node body ih =>
      obtain ⟨k?, _, hbody, rfl⟩ := runs_iff.1 h
      rw [run, ih hbody hg]
      cases k? <;> rfl
    | wrap body ih =>
      obtain ⟨k, _, hbody, rfl⟩ := runs_iff.1 h
      rw [run, ih hbody hg]
    | iterate x body ih =>
      refine repeatStep_eq hg (fun h => ih _ h (hg.1 _)) h ?_
      exact Nat.lt_succ_of_le (fromSignificant_suffix s.rest).length_le
    | call r =>
      obtain ⟨e, rfl, hinner⟩ := runs_iff.1 h
      exact ihd e (Nat.lt_succ_self e) hinner (Rule.paced r).steady

/-- A repetition that the parser was not stopped in is one without bounds, if its rounds are. -/
theorem runs_of_repeatStep {call : Rule → ParserState → Bool × ParserState}
    (hlater : ∀ r s, Later s (call r s).2) {body : σ → Grammar (σ × Bool)}
    (hbody : ∀ x s, ((body x).run call s).2.exhausted = false →
      Runs d (body x) s ((body x).run call s).1 ((body x).run call s).2)
    {n : Nat} {x : σ} {s : ParserState}
    (h : (repeatStep (fun x s => (body x).run call s) n x s).2.exhausted = false) :
    Runs d (iterate x body) s (repeatStep (fun x s => (body x).run call s) n x s).1
      (repeatStep (fun x s => (body x).run call s) n x s).2 := by
  induction n generalizing x s with
  | zero => cases h
  | succ n ih =>
    have hround := hbody x s
    rw [repeatStep] at h ⊢
    split at h
    · next y s' heq =>
      rw [heq] at hround
      have hs' := (repeatStep_later (fun x s => run_later hlater (body x) s) n y s').running h
      exact .again (hround hs') (ih h)
    · next y s' heq =>
      rw [heq] at hround
      exact .last (hround h)

/-- A run of the parser that is not stopped is one without bounds. -/
theorem runs_of_run (h : (g.run (runRule d) s).2.exhausted = false) :
    Runs d g s (g.run (runRule d) s).1 (g.run (runRule d) s).2 := by
  induction d using Nat.strong_induction_on generalizing α g s with
  | _ d ihd =>
    induction g generalizing s with
    | pure a => exact .pure a s
    | ahead => exact .ahead s
    | advance => exact .advance s
    | report fault => exact .report fault s
    | reportFrom fault origin note => exact .reportFrom fault origin note s
    | bind g f ihg ihf =>
      have hmid := (run_later (runRule_later d) (f (g.run (runRule d) s).1)
        (g.run (runRule d) s).2).running h
      exact .bind (ihg hmid) (ihf _ h)
    | node body ih =>
      have hbody := ih (s := s.openNode)
      rw [run] at h ⊢
      split at h <;>
      · next heq =>
        rw [heq] at hbody
        exact .node (hbody h)
    | wrap body ih => exact .wrap (ih h)
    | iterate x body ih => exact runs_of_repeatStep (runRule_later d) (fun x s => ih x) h
    | call r =>
      cases d with
      | zero => cases h
      | succ e => exact .call (ihd e (Nat.lt_succ_self e) h)

end Grammar

/-! ## Texts -/

/-- How a grammar for whole texts comes to its end in a text. -/
structure Grammar.Progress (g : Grammar Unit) (text : String) : Prop where
  /-- Only a type at the word `for` without a binder keeps it from an end. -/
  terminates_iff : g.Terminates (.initial text) ↔
    ∀ s, Meets (.enter .type s) g (.initial text) → ¬ BareFor s.rest
  /-- The bounds of the parser, which are linear in the number of tokens, make no difference to a
  run that comes to an end. -/
  bounded : ∀ {d s'}, Runs d g (.initial text) () s' →
    Runs (nestingBound (lexTokens text)) g (.initial text) () s' ∧
      parserAfter (nestingBound (lexTokens text)) g text = s'
  /-- The parser is stopped by its bounds where there is no end only. -/
  exhausted_iff : (parserAfter (nestingBound (lexTokens text)) g text).exhausted = true ↔
    ¬ g.Terminates (.initial text)
  /-- A repetition goes on only behind a round that takes a significant token. -/
  rounds : ∀ {s s'}, Meets (.round s s') g (.initial text) → s'.left.length < s.left.length
  /-- A form is entered inside itself only behind a significant token, a type at the word `for`
  without a binder apart. -/
  cycles : ∀ {r r' s s'}, Meets (.enter r s) g (.initial text) →
    Meets (.enter r' s') r.grammar s → r'.form = r.form →
    s'.left.length < s.left.length ∨ r = .type ∧ BareFor s.rest

theorem Grammar.Steady.progress {g : Grammar Unit} (hg : g.Steady) (text : String) :
    g.Progress text := by
  have hbound : 4 * (ParserState.initial text).left.length + 4 ≤ nestingBound (lexTokens text) := by
    have hle : (ParserState.initial text).left.length ≤ (lexTokens text).length :=
      (fromSignificant_suffix _).length_le
    rw [nestingBound]
    omega
  have hruns (h : ∀ s, Meets (.enter .type s) g (.initial text) → ¬ BareFor s.rest) :
      ∃ s', Runs (nestingBound (lexTokens text)) g (.initial text) () s' := by
    obtain ⟨⟨⟩, s', hrun⟩ := exists_runs hg (hg.idle _) rfl h hbound
    exact ⟨s', hrun⟩
  have hiff : g.Terminates (.initial text) ↔
      ∀ s, Meets (.enter .type s) g (.initial text) → ¬ BareFor s.rest := by
    constructor
    · rintro ⟨d, _, s', hrun⟩ s hs
      exact hrun.not_bareFor hs
    · intro h
      obtain ⟨s', hrun⟩ := hruns h
      exact ⟨_, _, s', hrun⟩
  have hbounded {d s'} (h : Runs d g (.initial text) () s') :
      Runs (nestingBound (lexTokens text)) g (.initial text) () s' := by
    obtain ⟨t, hrun⟩ := hruns (hiff.1 ⟨d, (), s', h⟩)
    exact (hrun.unique h).2 ▸ hrun
  refine ⟨hiff, fun h => ⟨hbounded h, ?_⟩, ?_, fun h => h.lt_of_steady Rule.paced hg, ?_⟩
  · rw [parserAfter, (hbounded h).run_eq hg]
  · rw [← Bool.not_eq_false, not_iff_not]
    constructor
    · exact fun h => ⟨_, _, _, runs_of_run h⟩
    · rintro ⟨d, _, s', h⟩
      rw [parserAfter, (hbounded h).run_eq hg]
      exact (hbounded h).exhausted_eq
  · intro r r' s s' _ hinner hform
    have hsuffix : s'.left <:+ s.left := hinner.left_suffix
    by_cases hlt : s'.left.length < s.left.length
    · exact .inl hlt
    · -- Nothing was read between the two, so the form would rank below itself.
      have hleft := hsuffix.eq_of_length_le (by omega)
      have hrank := hinner.of_idle Rule.paced ((Rule.paced r).idle s.rest) rfl hleft rfl
      rw [Rule.rank_eq_of_form hform, Rule.limit] at hrank
      split at hrank
      · next h => exact .inr h
      · exact absurd hrank (lt_irrefl _)

/-- For every text, parsing it as a file and as an expression comes to an end unless a type is read
at the word `for` without a binder; that apart, no repetition goes on and no form is entered again
inside itself without a significant token read, and bounds that are linear in the number of tokens
do. -/
theorem parsers_progress (text : String) :
    sourceFile.Progress text ∧ loneExpr.Progress text :=
  ⟨steady_sourceFile.progress text, steady_loneExpr.progress text⟩

/-- Such a type keeps a file from its end. -/
example : ¬ sourceFile.Terminates (.initial "type T=for u8;") :=
  (steady_sourceFile.progress _).exhausted_iff.1 (by decide +kernel)

end Reshape
