-- Kinds of nodes in the syntax tree of a Python source, and the fields that parents hold
-- their children under. A kind that no rule asks for keeps only its name.

namespace UnitAtlas.Syntax

/-- What a node is. -/
inductive Kind where
  | identifier | integer | float | string | concatenatedString | trueLiteral | falseLiteral
  | noneLiteral | ellipsis | lambda | call | attributeAccess | subscript | binaryOperator
  | booleanOperator | comparisonOperator | notOperator | unaryOperator | tuple | expressionList
  | list | set | dictionary | pair | conditionalExpression | yield | keywordArgument
  | generatorExpression | parenthesizedExpression
  | block | functionDefinition | classDefinition | decoratedDefinition | decorator
  | expressionStatement | returnStatement | passStatement | breakStatement | continueStatement
  | ifStatement | whileStatement | forStatement | tryStatement | withStatement | importStatement
  | importFromStatement | futureImportStatement | globalStatement | nonlocalStatement
  | raiseStatement | assertStatement | deleteStatement | printStatement | execStatement
  | assignment | augmentedAssignment | patternList | tuplePattern | listPattern | listSplatPattern
  | listSplat | asPattern | asPatternTarget
  | defaultParameter | typedDefaultParameter | typedParameter | dictionarySplatPattern
  | keywordSeparator
  | elifClause | elseClause | exceptClause | exceptGroupClause | finallyClause | withClause
  | aliasedImport | wildcardImport
  | comment | lineContinuation | error
  | other (name : String)
  deriving Repr, DecidableEq

namespace Kind

/-- The name of a kind in the grammar. -/
def name : Kind → String
  | .identifier => "identifier"
  | .integer => "integer"
  | .float => "float"
  | .string => "string"
  | .concatenatedString => "concatenated_string"
  | .trueLiteral => "true"
  | .falseLiteral => "false"
  | .noneLiteral => "none"
  | .ellipsis => "ellipsis"
  | .lambda => "lambda"
  | .call => "call"
  | .attributeAccess => "attribute"
  | .subscript => "subscript"
  | .binaryOperator => "binary_operator"
  | .booleanOperator => "boolean_operator"
  | .comparisonOperator => "comparison_operator"
  | .notOperator => "not_operator"
  | .unaryOperator => "unary_operator"
  | .tuple => "tuple"
  | .expressionList => "expression_list"
  | .list => "list"
  | .set => "set"
  | .dictionary => "dictionary"
  | .pair => "pair"
  | .conditionalExpression => "conditional_expression"
  | .yield => "yield"
  | .keywordArgument => "keyword_argument"
  | .generatorExpression => "generator_expression"
  | .parenthesizedExpression => "parenthesized_expression"
  | .block => "block"
  | .functionDefinition => "function_definition"
  | .classDefinition => "class_definition"
  | .decoratedDefinition => "decorated_definition"
  | .decorator => "decorator"
  | .expressionStatement => "expression_statement"
  | .returnStatement => "return_statement"
  | .passStatement => "pass_statement"
  | .breakStatement => "break_statement"
  | .continueStatement => "continue_statement"
  | .ifStatement => "if_statement"
  | .whileStatement => "while_statement"
  | .forStatement => "for_statement"
  | .tryStatement => "try_statement"
  | .withStatement => "with_statement"
  | .importStatement => "import_statement"
  | .importFromStatement => "import_from_statement"
  | .futureImportStatement => "future_import_statement"
  | .globalStatement => "global_statement"
  | .nonlocalStatement => "nonlocal_statement"
  | .raiseStatement => "raise_statement"
  | .assertStatement => "assert_statement"
  | .deleteStatement => "delete_statement"
  | .printStatement => "print_statement"
  | .execStatement => "exec_statement"
  | .assignment => "assignment"
  | .augmentedAssignment => "augmented_assignment"
  | .patternList => "pattern_list"
  | .tuplePattern => "tuple_pattern"
  | .listPattern => "list_pattern"
  | .listSplatPattern => "list_splat_pattern"
  | .listSplat => "list_splat"
  | .asPattern => "as_pattern"
  | .asPatternTarget => "as_pattern_target"
  | .defaultParameter => "default_parameter"
  | .typedDefaultParameter => "typed_default_parameter"
  | .typedParameter => "typed_parameter"
  | .dictionarySplatPattern => "dictionary_splat_pattern"
  | .keywordSeparator => "keyword_separator"
  | .elifClause => "elif_clause"
  | .elseClause => "else_clause"
  | .exceptClause => "except_clause"
  | .exceptGroupClause => "except_group_clause"
  | .finallyClause => "finally_clause"
  | .withClause => "with_clause"
  | .aliasedImport => "aliased_import"
  | .wildcardImport => "wildcard_import"
  | .comment => "comment"
  | .lineContinuation => "line_continuation"
  | .error => "ERROR"
  | .other name => name

/-- Every kind that some rule asks for. -/
def known : List Kind := [
  .identifier, .integer, .float, .string, .concatenatedString, .trueLiteral, .falseLiteral,
  .noneLiteral, .ellipsis, .lambda, .call, .attributeAccess, .subscript, .binaryOperator,
  .booleanOperator, .comparisonOperator, .notOperator, .unaryOperator, .tuple, .expressionList,
  .list, .set, .dictionary, .pair, .conditionalExpression, .yield, .keywordArgument,
  .generatorExpression, .parenthesizedExpression,
  .block, .functionDefinition, .classDefinition, .decoratedDefinition, .decorator,
  .expressionStatement, .returnStatement, .passStatement, .breakStatement, .continueStatement,
  .ifStatement, .whileStatement, .forStatement, .tryStatement, .withStatement, .importStatement,
  .importFromStatement, .futureImportStatement, .globalStatement, .nonlocalStatement,
  .raiseStatement, .assertStatement, .deleteStatement, .printStatement, .execStatement,
  .assignment, .augmentedAssignment, .patternList, .tuplePattern, .listPattern, .listSplatPattern,
  .listSplat, .asPattern, .asPatternTarget,
  .defaultParameter, .typedDefaultParameter, .typedParameter, .dictionarySplatPattern,
  .keywordSeparator,
  .elifClause, .elseClause, .exceptClause, .exceptGroupClause, .finallyClause, .withClause,
  .aliasedImport, .wildcardImport,
  .comment, .lineContinuation, .error]

/-- The kind of a name. -/
def ofName (name : String) : Kind := (known.find? (·.name == name)).getD (.other name)

/-- Comments and joined lines stand anywhere and mean nothing. -/
def isTrivia : Kind → Bool
  | .comment | .lineContinuation => true
  | _ => false

/-- Clauses are the parts of a compound statement that hold suites of their own. -/
def isClause (kind : Kind) : Bool := "_clause".toList.isSuffixOf kind.name.toList

end Kind

/-- Under what name a parent holds a child, for the names that some rule asks for. -/
inductive Field where
  | name | body | parameters | superclasses | definition | left | right | operator
  | object | attributeName | function | arguments | value | key | asName
  | condition | consequence | alternative | moduleName
  deriving Repr, DecidableEq

namespace Field

/-- The name of a field in the grammar. -/
def word : Field → String
  | .name => "name"
  | .body => "body"
  | .parameters => "parameters"
  | .superclasses => "superclasses"
  | .definition => "definition"
  | .left => "left"
  | .right => "right"
  | .operator => "operator"
  | .object => "object"
  | .attributeName => "attribute"
  | .function => "function"
  | .arguments => "arguments"
  | .value => "value"
  | .key => "key"
  | .asName => "alias"
  | .condition => "condition"
  | .consequence => "consequence"
  | .alternative => "alternative"
  | .moduleName => "module_name"

def known : List Field := [
  .name, .body, .parameters, .superclasses, .definition, .left, .right, .operator, .object,
  .attributeName, .function, .arguments, .value, .key, .asName, .condition, .consequence,
  .alternative, .moduleName]

/-- The field of a name; none for a name that no rule asks for. -/
def ofName? (name : String) : Option Field := known.find? (·.word == name)

end Field

end UnitAtlas.Syntax
