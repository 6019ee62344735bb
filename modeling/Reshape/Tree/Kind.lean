/-!
# Kinds of nodes

* `NodeKind` lists the kinds of inner nodes of a syntax tree, `NodeKind.label` names them in
  printed trees.
* `NodeKind.isExpr`, `NodeKind.isPattern` and `NodeKind.isType` are classes of forms, as are
  `NodeKind.isItem` and `NodeKind.isStatement`. A macro call counts as an expression and as an item,
  wherever it stands.
-/

namespace Reshape

/-- The kinds of inner nodes. -/
inductive NodeKind
  /-- Tokens that are part of no form. -/
  | errorNode
  | sourceFile
  | attr
  | visibility
  /-- A name where it is declared. -/
  | name
  /-- A name, or the index of a positional field, where it is used. -/
  | nameRef
  | path
  | pathSegment
  | genericArgList
  | typeArg
  | lifetimeArg
  /-- An argument such as `Item = T`. -/
  | assocTypeArg
  /-- The arguments of `Fn(A, B) -> C`. -/
  | parenTypeArgList
  | genericParamList
  | typeParam
  | lifetimeParam
  | constParam
  | whereClause
  | wherePred
  | typeBoundList
  | typeBound
  /-- Tokens between matching delimiters. -/
  | tokenTree
  /-- A macro call in the place of an item, statement, expression, pattern or type. -/
  | macroCall
  | fnDef
  | paramList
  | param
  | selfParam
  | retType
  | structDef
  | recordFieldList
  | recordField
  | tupleFieldList
  | tupleField
  | enumDef
  | variantList
  | variant
  | implDef
  | traitDef
  | assocItemList
  | useItem
  | useTree
  | useTreeList
  /-- The new name in an import. -/
  | rename
  | modItem
  | itemList
  | constItem
  | staticItem
  | typeAlias
  | letStmt
  | exprStmt
  /-- The block of a `let` that does not match. -/
  | letElse
  | literal
  | pathExpr
  | recordExpr
  | recordExprFieldList
  | recordExprField
  | callExpr
  | argList
  | methodCallExpr
  | fieldExpr
  | indexExpr
  /-- An operand behind `-`, `!` or `*`. -/
  | prefixExpr
  /-- An operand behind `&` or `&mut`. -/
  | refExpr
  | binExpr
  | castExpr
  | tryExpr
  | rangeExpr
  | parenExpr
  | tupleExpr
  | arrayExpr
  | blockExpr
  | ifExpr
  /-- A `let` in a condition. -/
  | letExpr
  | matchExpr
  | matchArmList
  | matchArm
  | matchGuard
  | whileExpr
  | loopExpr
  | forExpr
  | returnExpr
  | breakExpr
  | continueExpr
  | closureExpr
  | loopLabel
  | underscoreExpr
  | wildcardPat
  | identPat
  | literalPat
  | rangePat
  | tuplePat
  | parenPat
  | slicePat
  | tupleStructPat
  | recordPat
  | recordPatFieldList
  | recordPatField
  | restPat
  | refPat
  | orPat
  | pathPat
  | pathType
  | refType
  | ptrType
  | sliceType
  | arrayType
  | tupleType
  | inferType
  | neverType
  | implTraitType
  | dynTraitType
  | fnPtrType
deriving DecidableEq, Inhabited

namespace NodeKind

/-- The name of a kind in printed trees. -/
def label : NodeKind → String
  | .errorNode => "ERROR_NODE"
  | .sourceFile => "SOURCE_FILE"
  | .attr => "ATTR"
  | .visibility => "VISIBILITY"
  | .name => "NAME"
  | .nameRef => "NAME_REF"
  | .path => "PATH"
  | .pathSegment => "PATH_SEGMENT"
  | .genericArgList => "GENERIC_ARG_LIST"
  | .typeArg => "TYPE_ARG"
  | .lifetimeArg => "LIFETIME_ARG"
  | .assocTypeArg => "ASSOC_TYPE_ARG"
  | .parenTypeArgList => "PAREN_TYPE_ARG_LIST"
  | .genericParamList => "GENERIC_PARAM_LIST"
  | .typeParam => "TYPE_PARAM"
  | .lifetimeParam => "LIFETIME_PARAM"
  | .constParam => "CONST_PARAM"
  | .whereClause => "WHERE_CLAUSE"
  | .wherePred => "WHERE_PRED"
  | .typeBoundList => "TYPE_BOUND_LIST"
  | .typeBound => "TYPE_BOUND"
  | .tokenTree => "TOKEN_TREE"
  | .macroCall => "MACRO_CALL"
  | .fnDef => "FN_DEF"
  | .paramList => "PARAM_LIST"
  | .param => "PARAM"
  | .selfParam => "SELF_PARAM"
  | .retType => "RET_TYPE"
  | .structDef => "STRUCT_DEF"
  | .recordFieldList => "RECORD_FIELD_LIST"
  | .recordField => "RECORD_FIELD"
  | .tupleFieldList => "TUPLE_FIELD_LIST"
  | .tupleField => "TUPLE_FIELD"
  | .enumDef => "ENUM_DEF"
  | .variantList => "VARIANT_LIST"
  | .variant => "VARIANT"
  | .implDef => "IMPL_DEF"
  | .traitDef => "TRAIT_DEF"
  | .assocItemList => "ASSOC_ITEM_LIST"
  | .useItem => "USE_ITEM"
  | .useTree => "USE_TREE"
  | .useTreeList => "USE_TREE_LIST"
  | .rename => "RENAME"
  | .modItem => "MOD_ITEM"
  | .itemList => "ITEM_LIST"
  | .constItem => "CONST_ITEM"
  | .staticItem => "STATIC_ITEM"
  | .typeAlias => "TYPE_ALIAS"
  | .letStmt => "LET_STMT"
  | .exprStmt => "EXPR_STMT"
  | .letElse => "LET_ELSE"
  | .literal => "LITERAL"
  | .pathExpr => "PATH_EXPR"
  | .recordExpr => "RECORD_EXPR"
  | .recordExprFieldList => "RECORD_EXPR_FIELD_LIST"
  | .recordExprField => "RECORD_EXPR_FIELD"
  | .callExpr => "CALL_EXPR"
  | .argList => "ARG_LIST"
  | .methodCallExpr => "METHOD_CALL_EXPR"
  | .fieldExpr => "FIELD_EXPR"
  | .indexExpr => "INDEX_EXPR"
  | .prefixExpr => "PREFIX_EXPR"
  | .refExpr => "REF_EXPR"
  | .binExpr => "BIN_EXPR"
  | .castExpr => "CAST_EXPR"
  | .tryExpr => "TRY_EXPR"
  | .rangeExpr => "RANGE_EXPR"
  | .parenExpr => "PAREN_EXPR"
  | .tupleExpr => "TUPLE_EXPR"
  | .arrayExpr => "ARRAY_EXPR"
  | .blockExpr => "BLOCK_EXPR"
  | .ifExpr => "IF_EXPR"
  | .letExpr => "LET_EXPR"
  | .matchExpr => "MATCH_EXPR"
  | .matchArmList => "MATCH_ARM_LIST"
  | .matchArm => "MATCH_ARM"
  | .matchGuard => "MATCH_GUARD"
  | .whileExpr => "WHILE_EXPR"
  | .loopExpr => "LOOP_EXPR"
  | .forExpr => "FOR_EXPR"
  | .returnExpr => "RETURN_EXPR"
  | .breakExpr => "BREAK_EXPR"
  | .continueExpr => "CONTINUE_EXPR"
  | .closureExpr => "CLOSURE_EXPR"
  | .loopLabel => "LABEL"
  | .underscoreExpr => "UNDERSCORE_EXPR"
  | .wildcardPat => "WILDCARD_PAT"
  | .identPat => "IDENT_PAT"
  | .literalPat => "LITERAL_PAT"
  | .rangePat => "RANGE_PAT"
  | .tuplePat => "TUPLE_PAT"
  | .parenPat => "PAREN_PAT"
  | .slicePat => "SLICE_PAT"
  | .tupleStructPat => "TUPLE_STRUCT_PAT"
  | .recordPat => "RECORD_PAT"
  | .recordPatFieldList => "RECORD_PAT_FIELD_LIST"
  | .recordPatField => "RECORD_PAT_FIELD"
  | .restPat => "REST_PAT"
  | .refPat => "REF_PAT"
  | .orPat => "OR_PAT"
  | .pathPat => "PATH_PAT"
  | .pathType => "PATH_TYPE"
  | .refType => "REF_TYPE"
  | .ptrType => "PTR_TYPE"
  | .sliceType => "SLICE_TYPE"
  | .arrayType => "ARRAY_TYPE"
  | .tupleType => "TUPLE_TYPE"
  | .inferType => "INFER_TYPE"
  | .neverType => "NEVER_TYPE"
  | .implTraitType => "IMPL_TRAIT_TYPE"
  | .dynTraitType => "DYN_TRAIT_TYPE"
  | .fnPtrType => "FN_PTR_TYPE"

/-- Whether nodes of the kind are expressions. -/
def isExpr : NodeKind → Bool
  | .literal | .pathExpr | .recordExpr | .callExpr | .methodCallExpr | .fieldExpr
  | .indexExpr | .prefixExpr | .refExpr | .binExpr | .castExpr | .tryExpr | .rangeExpr
  | .parenExpr | .tupleExpr | .arrayExpr | .blockExpr | .ifExpr | .letExpr | .matchExpr
  | .whileExpr | .loopExpr | .forExpr | .returnExpr | .breakExpr | .continueExpr
  | .closureExpr | .macroCall | .underscoreExpr => true
  | _ => false

/-- Whether nodes of the kind are patterns. -/
def isPattern : NodeKind → Bool
  | .wildcardPat | .identPat | .literalPat | .rangePat | .tuplePat | .parenPat | .slicePat
  | .tupleStructPat | .recordPat | .restPat | .refPat | .orPat | .pathPat => true
  | _ => false

/-- Whether nodes of the kind are types. -/
def isType : NodeKind → Bool
  | .pathType | .refType | .ptrType | .sliceType | .arrayType | .tupleType | .inferType
  | .neverType | .implTraitType | .dynTraitType | .fnPtrType => true
  | _ => false

/-- Whether nodes of the kind are items. -/
def isItem : NodeKind → Bool
  | .fnDef | .structDef | .enumDef | .implDef | .traitDef | .modItem | .useItem | .constItem
  | .staticItem | .typeAlias | .macroCall => true
  | _ => false

/-- Whether nodes of the kind are statements. The value of a block and items in it are none. -/
def isStatement : NodeKind → Bool
  | .letStmt | .exprStmt => true
  | _ => false

end NodeKind

end Reshape
