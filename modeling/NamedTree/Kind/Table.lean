import NamedTree.Kind.Category
import NamedTree.Kind.Layout

/-! # The table of known kinds

Every kind that a parsing front end is known to produce has a row: its name, its category and the
layout of its children. The order of the rows is the order in which kinds are listed. -/

namespace NamedTree

/-- What is known of one kind. -/
structure Row where
  name : String
  category : Category
  layout : Layout

namespace Row

/-- The rows of all known kinds. -/
def table : List Row := [
  ⟨"if", .conditional, .requiredThenOptional ["condition", "then_branch"] "else_branch"⟩,
  ⟨"unless", .conditional, .requiredThenOptional ["condition", "then_branch"] "else_branch"⟩,
  ⟨"while", .loopConditional, .required ["condition", "body"]⟩,
  ⟨"while_post", .loopConditional, .required ["condition", "body"]⟩,
  ⟨"until", .loopConditional, .required ["condition", "body"]⟩,
  ⟨"until_post", .loopConditional, .required ["condition", "body"]⟩,
  ⟨"for", .iteration, .required ["variable", "collection", "body"]⟩,
  ⟨"for_post", .iteration, .required ["variable", "collection", "body"]⟩,
  ⟨"def", .definition, .required ["name", "arguments", "body"]⟩,
  ⟨"defs", .definition, .required ["base", "name", "arguments", "body"]⟩,
  ⟨"class", .definition, .slots [⟨"name", false⟩, ⟨"superclass", true⟩, ⟨"body", false⟩]⟩,
  ⟨"sclass", .definition, .required ["name", "def", "body"]⟩,
  ⟨"module", .definition, .required ["name", "body"]⟩,
  ⟨"block", .blockLike, .required ["call_name", "arguments", "body"]⟩,
  ⟨"numblock", .blockLike, .required ["call", "param_idx", "body"]⟩,
  ⟨"itblock", .blockLike, .required ["call", "body"]⟩,
  ⟨"begin", .sequenceBody, .everything "body"⟩,
  ⟨"kwbegin", .sequenceBody, .everything "body"⟩,
  ⟨"case", .branchDispatch, .dispatch "case_expression" "when_clauses"⟩,
  ⟨"case_match", .branchDispatch, .dispatch "statement" "bodies"⟩,
  ⟨"when", .clause, .initAndLast "conditions" "then_branch"⟩,
  ⟨"in_pattern", .clause, .required ["pattern", "guard", "body"]⟩,
  ⟨"match_as", .patternBinding, .required ["value", "as"]⟩,
  ⟨"rescue", .exceptionHandling, .dispatch "statement" "bodies"⟩,
  ⟨"resbody", .exceptionHandling, .required ["exec_list", "exec_var", "body"]⟩,
  ⟨"ensure", .exceptionHandling, .required ["statement", "body"]⟩,
  ⟨"if_guard", .guard, .required ["condition"]⟩,
  ⟨"unless_guard", .guard, .required ["condition"]⟩,
  ⟨"match_alt", .alternation, .required ["left", "right"]⟩,
  ⟨"casgn", .qualifiedAssignment, .required ["base", "lhs", "rhs"]⟩,
  ⟨"op_asgn", .qualifiedAssignment, .required ["lhs", "op", "rhs"]⟩,
  ⟨"or_asgn", .simpleAssignment, .requiredThenOptional ["lhs"] "rhs"⟩,
  ⟨"and_asgn", .simpleAssignment, .requiredThenOptional ["lhs"] "rhs"⟩,
  ⟨"lvasgn", .simpleAssignment, .requiredThenOptional ["lhs"] "rhs"⟩,
  ⟨"ivasgn", .simpleAssignment, .requiredThenOptional ["lhs"] "rhs"⟩,
  ⟨"gvasgn", .simpleAssignment, .requiredThenOptional ["lhs"] "rhs"⟩,
  ⟨"cvasgn", .simpleAssignment, .requiredThenOptional ["lhs"] "rhs"⟩,
  ⟨"match_with_lvasgn", .simpleAssignment, .requiredThenOptional ["lhs"] "rhs"⟩,
  ⟨"masgn", .multipleAssignment, .required ["lhs", "rhs"]⟩,
  ⟨"and", .binaryOperator, .required ["lhs", "rhs"]⟩,
  ⟨"or", .binaryOperator, .required ["lhs", "rhs"]⟩,
  ⟨"match_pattern", .binaryOperator, .required ["lhs", "rhs"]⟩,
  ⟨"match_pattern_p", .binaryOperator, .required ["lhs", "rhs"]⟩,
  ⟨"erange", .rangeLike, .required ["start", "end"]⟩,
  ⟨"irange", .rangeLike, .required ["start", "end"]⟩,
  ⟨"eflipflop", .rangeLike, .required ["start", "end"]⟩,
  ⟨"iflipflop", .rangeLike, .required ["start", "end"]⟩,
  ⟨"nil", .singleton, .constants [("value", .str "nil")]⟩,
  ⟨"true", .singleton, .constants [("value", .str "true")]⟩,
  ⟨"false", .singleton, .constants [("value", .str "false")]⟩,
  ⟨"int", .valueCarrying, .required ["value"]⟩,
  ⟨"float", .valueCarrying, .required ["value"]⟩,
  ⟨"rational", .valueCarrying, .required ["value"]⟩,
  ⟨"complex", .valueCarrying, .required ["value"]⟩,
  ⟨"str", .valueCarrying, .required ["value"]⟩,
  ⟨"sym", .valueCarrying, .required ["value"]⟩,
  ⟨"regexp", .regexLiteral, .required ["value", "opt"]⟩,
  ⟨"regopt", .optionalValue, .requiredThenOptional [] "value"⟩,
  ⟨"arg", .valueCarrying, .required ["value"]⟩,
  ⟨"restarg", .valueCarrying, .required ["value"]⟩,
  ⟨"blockarg", .valueCarrying, .required ["value"]⟩,
  ⟨"shadowarg", .valueCarrying, .required ["value"]⟩,
  ⟨"kwarg", .keywordArgument, .required ["key", "value"]⟩,
  ⟨"kwoptarg", .keywordArgument, .required ["key", "value"]⟩,
  ⟨"kwnilarg", .noKeywordMarker, .constants [("call", .str "kwnilarg"), ("body", .bool false)]⟩,
  ⟨"kwrestarg", .restKeyword, .requiredThenOptional ["name"] "value"⟩,
  ⟨"optarg", .keyValue, .required ["key", "value"]⟩,
  ⟨"self", .valueCarrying, .required ["value"]⟩,
  ⟨"ident", .valueCarrying, .required ["value"]⟩,
  ⟨"lvar", .valueCarrying, .required ["value"]⟩,
  ⟨"cvar", .valueCarrying, .required ["value"]⟩,
  ⟨"gvar", .valueCarrying, .required ["value"]⟩,
  ⟨"ivar", .valueCarrying, .required ["value"]⟩,
  ⟨"splat", .valueCarrying, .required ["value"]⟩,
  ⟨"kwsplat", .valueCarrying, .required ["value"]⟩,
  ⟨"block_pass", .valueCarrying, .required ["value"]⟩,
  ⟨"match_var", .valueCarrying, .required ["value"]⟩,
  ⟨"match_rest", .valueCarrying, .required ["value"]⟩,
  ⟨"const", .qualifyingAccess, .required ["base", "name"]⟩,
  ⟨"cbase", .qualifyingAccess, .required ["base", "name"]⟩,
  ⟨"pin", .pin, .required ["value"]⟩,
  ⟨"send", .call, .leading ["receiver", "name"] "arguments"⟩,
  ⟨"csend", .call, .leading ["receiver", "name"] "arguments"⟩,
  ⟨"yield", .specialCommand, .everything "arguments"⟩,
  ⟨"super", .specialCommand, .everything "arguments"⟩,
  ⟨"defined?", .specialCommand, .everything "arguments"⟩,
  ⟨"xstr", .specialCommand, .everything "arguments"⟩,
  ⟨"pair", .keyValue, .required ["key", "value"]⟩,
  ⟨"alias", .aliasing, .required ["alias", "name"]⟩,
  ⟨"preexe", .topLevelHook, .required ["body"]⟩,
  ⟨"postexe", .topLevelHook, .required ["body"]⟩,
  ⟨"args", .collection, .children⟩,
  ⟨"array", .collection, .children⟩,
  ⟨"hash", .collection, .children⟩,
  ⟨"mlhs", .collection, .children⟩,
  ⟨"hash_pattern", .collection, .children⟩,
  ⟨"array_pattern", .collection, .children⟩,
  ⟨"array_pattern_with_tail", .collection, .children⟩,
  ⟨"find_pattern", .collection, .children⟩,
  ⟨"undef", .collection, .children⟩,
  ⟨"procarg0", .collection, .children⟩,
  ⟨"dsym", .collection, .children⟩,
  ⟨"dstr", .collection, .children⟩,
  ⟨"nth_ref", .collection, .children⟩,
  ⟨"back_ref", .collection, .children⟩,
  ⟨"return", .returning, .whenPresent "values"⟩,
  ⟨"break", .controlKeyword, .requiredThenOptional [] "arguments"⟩,
  ⟨"next", .controlKeyword, .requiredThenOptional [] "arguments"⟩,
  ⟨"redo", .optionalValue, .requiredThenOptional [] "value"⟩,
  ⟨"retry", .zeroArity, .required []⟩,
  ⟨"zsuper", .zeroArity, .required []⟩,
  ⟨"forward_args", .zeroArity, .required []⟩,
  ⟨"forwarded_args", .zeroArity, .required []⟩,
  ⟨"forward_arg", .zeroArity, .required []⟩,
  ⟨"match_nil_pattern", .zeroArity, .required []⟩]

/-- The names of all known kinds, in table order. -/
def names : List String := table.map name

theorem names_nodup : names.Nodup := by decide +kernel

end Row

end NamedTree
