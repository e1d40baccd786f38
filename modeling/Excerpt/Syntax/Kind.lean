/-!
The kinds of nodes in a tree of Python source, and the roles a child can play under its parent.
A symbol is either a kind of construct or a token that stands for its own spelling.
-/
namespace Excerpt.Syntax

inductive Kind
  | program
  | importStatement
  | importPrefix
  | relativeImport
  | futureImportStatement
  | importFromStatement
  | aliasedImport
  | wildcardImport
  | printStatement
  | chevron
  | assertStatement
  | expressionStatement
  | namedExpression
  | returnStatement
  | deleteStatement
  | raiseStatement
  | passStatement
  | breakStatement
  | continueStatement
  | ifStatement
  | elifClause
  | elseClause
  | matchStatement
  | block
  | caseClause
  | forStatement
  | whileStatement
  | tryStatement
  | exceptClause
  | exceptGroupClause
  | finallyClause
  | withStatement
  | withClause
  | withItem
  | functionDefinition
  | parameters
  | lambdaParameters
  | listSplat
  | dictionarySplat
  | globalStatement
  | nonlocalStatement
  | execStatement
  | typeAliasStatement
  | classDefinition
  | typeParameter
  | parenthesizedListSplat
  | argumentList
  | decoratedDefinition
  | decorator
  | expressionList
  | dottedName
  | casePattern
  | asPattern
  | unionPattern
  | listPattern
  | tuplePattern
  | dictPattern
  | keywordPattern
  | splatPattern
  | classPattern
  | complexPattern
  | defaultParameter
  | typedDefaultParameter
  | typedParameter
  | listSplatPattern
  | dictionarySplatPattern
  | asPatternTarget
  | notOperator
  | booleanOperator
  | binaryOperator
  | unaryOperator
  | comparisonOperator
  | lambda
  | assignment
  | augmentedAssignment
  | patternList
  | yieldExpression
  | member
  | subscript
  | slice
  | ellipsis
  | call
  | typeExpression
  | splatType
  | genericType
  | unionType
  | constrainedType
  | memberType
  | keywordArgument
  | list
  | set
  | tuple
  | dictionary
  | pair
  | listComprehension
  | dictionaryComprehension
  | setComprehension
  | generatorExpression
  | parenthesizedExpression
  | forInClause
  | ifClause
  | conditionalExpression
  | concatenatedString
  | string
  | stringStart
  | stringContent
  | stringEnd
  | escapeSequence
  | escapeInterpolation
  | interpolation
  | formatSpecifier
  | formatExpression
  | typeConversion
  | integer
  | float
  | identifier
  | trueLiteral
  | falseLiteral
  | noneLiteral
  | awaitExpression
  | comment
  | lineContinuation
  | positionalSeparator
  | keywordSeparator
deriving DecidableEq, Repr, Inhabited

/-- A token without a kind of its own, such as a keyword or a bracket, is its spelling. -/
inductive Symbol
  | named (kind : Kind)
  | token (spelling : String)
deriving DecidableEq, Repr, Inhabited

inductive Field
  | name
  | alias
  | moduleName
  | argument
  | value
  | code
  | condition
  | consequence
  | alternative
  | subject
  | body
  | guard
  | left
  | right
  | typeParameters
  | parameters
  | returnType
  | superclasses
  | definition
  | key
  | type
  | object
  | member
  | subscript
  | function
  | arguments
  | expression
  | typeConversion
  | formatSpecifier
  | operator
  | operators
  | cause
deriving DecidableEq, Repr, Inhabited

end Excerpt.Syntax
