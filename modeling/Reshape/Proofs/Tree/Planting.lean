import Reshape.Proofs.Tree.Scaffold

/-!
# Trees of sketches

Carried out over a list of tokens, the steps of a sketch build one tree, and a frame around it is
left as it was. That tree is given here by recursion on the sketch.

* `Sketch.plant` and `Contents.plant` are the tree of a sketch and the trees of contents, with what
  they leave of the tokens.
* `treeOfOps_eq` says that operations whose log describes a single node build the tree of that node.
* `leaves_plant` says that a planted tree has the tokens it was given as its leaves: as many of them
  as steps over tokens were recorded.
-/

namespace Reshape

/-- Tokens that are still to be placed, and the offset of the first one. -/
structure Supply where
  tokens : List Token
  offset : Nat

mutual

/-- The number of steps over tokens in a sketch. -/
def Sketch.tokenCount : Sketch → Nat
  | .plain _ c => c.tokenCount
  | .around _ s c => s.tokenCount + c.tokenCount

/-- The number of steps over tokens in contents. -/
def Contents.tokenCount : Contents → Nat
  | .nothing => 0
  | .token c => c.tokenCount + 1
  | .node c s => c.tokenCount + s.tokenCount

end

mutual

/-- The tree of a sketch. -/
def Sketch.plant : Sketch → Supply → Tree × Supply
  | .plain k c, g =>
    let (ts, g') := c.plant g
    (.node k ⟨g.offset, g'.offset⟩ ts, g')
  | .around k s c, g =>
    let (t, g₁) := s.plant g
    let (ts, g₂) := c.plant g₁
    (.node k ⟨g.offset, g₂.offset⟩ (t :: ts), g₂)

/-- The trees of contents. -/
def Contents.plant : Contents → Supply → List Tree × Supply
  | .nothing, g => ([], g)
  | .token c, g =>
    let (ts, g') := c.plant g
    match g'.tokens with
    | [] => (ts, g')
    | t :: rest => (ts ++ [.leaf t], ⟨rest, t.stop⟩)
  | .node c s, g =>
    let (ts, g₁) := c.plant g
    let (t, g₂) := s.plant g₁
    (ts ++ [t], g₂)

end

/-! ## Carrying out the steps of a sketch -/

namespace Assembly

/-- What an assembly has still to place. -/
def supply (a : Assembly) : Supply := ⟨a.tokens, a.offset⟩

/-- An assembly with trees added to its innermost node, and another supply. -/
def grow (a : Assembly) (ts : List Tree) (g : Supply) : Assembly :=
  match a.frames with
  | [] => ⟨[], ts.reverse ++ a.done, g.tokens, g.offset⟩
  | f :: fs => ⟨{ f with children := ts.reverse ++ f.children } :: fs, a.done, g.tokens, g.offset⟩

theorem supply_grow (a : Assembly) (ts : List Tree) (g : Supply) : (a.grow ts g).supply = g := by
  obtain ⟨_ | ⟨f, fs⟩, done, tokens, offset⟩ := a <;> rfl

theorem grow_supply (a : Assembly) : a.grow [] a.supply = a := by
  obtain ⟨_ | ⟨f, fs⟩, done, tokens, offset⟩ := a <;> rfl

theorem grow_grow (a : Assembly) (ts us : List Tree) (g g' : Supply) :
    (a.grow ts g).grow us g' = a.grow (ts ++ us) g' := by
  obtain ⟨_ | ⟨f, fs⟩, done, tokens, offset⟩ := a <;> simp [grow]

theorem step_token (a : Assembly) :
    a.step .token = match a.tokens with
      | [] => a
      | t :: rest => a.grow [.leaf t] ⟨rest, t.stop⟩ := by
  obtain ⟨_ | ⟨f, fs⟩, done, _ | ⟨t, rest⟩, offset⟩ := a <;> rfl

theorem step_finish_start (a : Assembly) (k : NodeKind) (ts : List Tree) (g : Supply) :
    ((a.step (.start k)).grow ts g).step .finish = a.grow [.node k ⟨a.offset, g.offset⟩ ts] g := by
  obtain ⟨_ | ⟨f, fs⟩, done, tokens, offset⟩ := a <;> simp [step, grow, add]

theorem supply_start (a : Assembly) (k : NodeKind) : (a.step (.start k)).supply = a.supply := rfl

mutual

/-- The steps of a sketch add its tree. -/
theorem foldl_steps_sketch :
    (s : Sketch) → (a : Assembly) →
      s.steps.foldl step a = a.grow [(s.plant a.supply).1] (s.plant a.supply).2
  | .plain k c, a => by
    have hc := foldl_steps_contents c (a.step (.start k))
    rw [supply_start] at hc
    simp only [Sketch.steps, List.foldl_cons, List.foldl_append, List.foldl_nil, hc,
      step_finish_start]
    rfl
  | .around k s c, a => by
    have hs := foldl_steps_sketch s (a.step (.start k))
    have hc := foldl_steps_contents c
      ((a.step (.start k)).grow [(s.plant a.supply).1] (s.plant a.supply).2)
    rw [supply_start] at hs
    rw [supply_grow, grow_grow] at hc
    simp only [Sketch.steps, List.foldl_cons, List.foldl_append, List.foldl_nil, hs, hc,
      step_finish_start]
    rfl

/-- The steps of contents add their trees. -/
theorem foldl_steps_contents :
    (c : Contents) → (a : Assembly) →
      c.steps.foldl step a = a.grow (c.plant a.supply).1 (c.plant a.supply).2
  | .nothing, a => (grow_supply a).symm
  | .token c, a => by
    have hc := foldl_steps_contents c a
    have htokens : (a.grow (c.plant a.supply).1 (c.plant a.supply).2).tokens =
        (c.plant a.supply).2.tokens := congrArg Supply.tokens (supply_grow _ _ _)
    simp only [Contents.steps, List.foldl_append, List.foldl_cons, List.foldl_nil, hc, step_token,
      htokens, Contents.plant]
    split
    · rfl
    · rw [grow_grow]
  | .node c s, a => by
    have hc := foldl_steps_contents c a
    have hs := foldl_steps_sketch s (a.grow (c.plant a.supply).1 (c.plant a.supply).2)
    rw [supply_grow, grow_grow] at hs
    simp only [Contents.steps, List.foldl_append, hc, hs]
    rfl

end

end Assembly

theorem assemble_steps (c : Contents) (tokens : List Token) :
    assemble c.steps tokens = (c.plant ⟨tokens, 0⟩).1 := by
  rw [assemble, Assembly.foldl_steps_contents]
  simp [Assembly.grow, Assembly.supply]

/-- Operations that record a single node build its tree. -/
theorem treeOfOps_eq {ops : List Op} {s : Sketch}
    (h : (Log.ofOps ops).Holds (.node .nothing s) []) (tokens : List Token) :
    treeOfOps ops tokens = (s.plant ⟨tokens, 0⟩).1 := by
  have hsteps : (Log.ofOps ops).steps = (Contents.node .nothing s).steps := by
    apply Log.steps_of_contents
    rw [h.events_eq]
    rfl
  rw [treeOfOps, hsteps, assemble_steps]
  rfl

/-! ## Leaves -/

namespace Tree

theorem forestLeaves_append (ts us : List Tree) :
    forestLeaves (ts ++ us) = forestLeaves ts ++ forestLeaves us := by
  simp [forestLeaves_eq_flatMap]

end Tree

mutual

/-- A sketch takes its tokens from the supply, one for each step over a token. -/
theorem Sketch.leaves_plant :
    (s : Sketch) → (g : Supply) →
      (s.plant g).1.leaves = g.tokens.take s.tokenCount ∧
        (s.plant g).2.tokens = g.tokens.drop s.tokenCount
  | .plain k c, g => Contents.leaves_plant c g
  | .around k s c, g => by
    obtain ⟨hs, hs'⟩ := Sketch.leaves_plant s g
    obtain ⟨hc, hc'⟩ := Contents.leaves_plant c (s.plant g).2
    refine ⟨?_, ?_⟩
    · simp only [Sketch.plant, Tree.leaves, Tree.forestLeaves, hs, hc, hs', Sketch.tokenCount]
      rw [List.take_add]
    · simp only [Sketch.plant, hc', hs', Sketch.tokenCount, List.drop_drop]

/-- Contents take their tokens from the supply, one for each step over a token. -/
theorem Contents.leaves_plant :
    (c : Contents) → (g : Supply) →
      Tree.forestLeaves (c.plant g).1 = g.tokens.take c.tokenCount ∧
        (c.plant g).2.tokens = g.tokens.drop c.tokenCount
  | .nothing, g => by simp [Contents.plant, Tree.forestLeaves, Contents.tokenCount]
  | .token c, g => by
    obtain ⟨hc, hc'⟩ := Contents.leaves_plant c g
    simp only [Contents.plant, Contents.tokenCount]
    split
    · next hnil =>
      rw [hnil] at hc'
      have hlen : g.tokens.length ≤ c.tokenCount := List.drop_eq_nil_iff.1 hc'.symm
      refine ⟨?_, ?_⟩
      · rw [hc, List.take_of_length_le hlen, List.take_of_length_le (by omega)]
      · rw [hnil, List.drop_eq_nil_of_le (by omega)]
    · next t rest hcons =>
      rw [hcons] at hc'
      have hrest : g.tokens.drop (c.tokenCount + 1) = rest := by
        rw [← List.drop_drop, ← hc']
        rfl
      refine ⟨?_, hrest.symm⟩
      rw [Tree.forestLeaves_append, hc, List.take_add, ← hc']
      simp [Tree.forestLeaves, Tree.leaves]
  | .node c s, g => by
    obtain ⟨hc, hc'⟩ := Contents.leaves_plant c g
    obtain ⟨hs, hs'⟩ := Sketch.leaves_plant s (c.plant g).2
    refine ⟨?_, ?_⟩
    · simp only [Contents.plant, Contents.tokenCount, Tree.forestLeaves_append, Tree.forestLeaves,
        hc, hs, hc', List.append_nil]
      rw [List.take_add]
    · simp only [Contents.plant, Contents.tokenCount, hs', hc', List.drop_drop]

end

end Reshape
