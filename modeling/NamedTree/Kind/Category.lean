/-! # Categories of node kinds

Kinds that play the same part in a program share a category. The category is shown in listings
under its `label`; `fallback` is the category of the kinds that have no row in the table. -/

namespace NamedTree

/-- The part that a node plays in a program. -/
inductive Category where
  | conditional
  | loopConditional
  | iteration
  | definition
  | blockLike
  | sequenceBody
  | branchDispatch
  | clause
  | patternBinding
  | exceptionHandling
  | guard
  | alternation
  | qualifiedAssignment
  | simpleAssignment
  | binaryOperator
  | singleton
  | keywordArgument
  | valueCarrying
  | optionalValue
  | qualifyingAccess
  | call
  | specialCommand
  | keyValue
  | aliasing
  | regexLiteral
  | rangeLike
  | multipleAssignment
  | topLevelHook
  | noKeywordMarker
  | restKeyword
  | pin
  | collection
  | returning
  | controlKeyword
  | zeroArity
  | fallback
deriving DecidableEq

/-- The text under which a category is listed. -/
def Category.label : Category → String
  | .conditional => "conditional"
  | .loopConditional => "loop_conditional"
  | .iteration => "iteration"
  | .definition => "definition"
  | .blockLike => "block_like"
  | .sequenceBody => "sequence_body"
  | .branchDispatch => "branch_dispatch"
  | .clause => "clause"
  | .patternBinding => "pattern_binding"
  | .exceptionHandling => "exception_handling"
  | .guard => "guard"
  | .alternation => "alternation"
  | .qualifiedAssignment => "qualified_assignment"
  | .simpleAssignment => "simple_assignment"
  | .binaryOperator => "binary_operator"
  | .singleton => "singleton"
  | .keywordArgument => "keyword_argument"
  | .valueCarrying => "value_carrying"
  | .optionalValue => "optional_value"
  | .qualifyingAccess => "qualifying_access"
  | .call => "call"
  | .specialCommand => "special_command"
  | .keyValue => "key_value"
  | .aliasing => "alias"
  | .regexLiteral => "regex_literal"
  | .rangeLike => "range_like"
  | .multipleAssignment => "multiple_assignment"
  | .topLevelHook => "top_level_hook"
  | .noKeywordMarker => "no_keyword_marker"
  | .restKeyword => "rest_keyword"
  | .pin => "pin"
  | .collection => "collection"
  | .returning => "return"
  | .controlKeyword => "control_keyword"
  | .zeroArity => "zero_arity"
  | .fallback => "fallback"

end NamedTree
