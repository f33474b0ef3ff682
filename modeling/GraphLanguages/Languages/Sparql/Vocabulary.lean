import GraphLanguages.Languages.Rdf

/-! Token types of SPARQL. The Stardog dialect adds the keywords of path queries. -/
namespace GraphLanguages.Sparql
open Text.Regex

inductive Dialect where
  | w3
  | stardog
deriving DecidableEq, Repr

def builtIns : List String :=
  ["str", "lang", "langmatches", "datatype", "bound", "iri", "uri", "bnode", "rand", "abs",
   "ceil", "floor", "round", "concat", "strlen", "ucase", "lcase", "encode_for_uri",
   "contains", "strstarts", "strends", "strbefore", "strafter", "year", "month", "day",
   "hours", "minutes", "seconds", "timezone", "tz", "now", "uuid", "struuid", "md5", "sha1",
   "sha256", "sha384", "sha512", "coalesce", "if", "strlang", "strdt", "sameterm", "isiri",
   "isuri", "isblank", "isliteral", "isnumeric", "regex", "substr", "replace"]

def keywords : List (String × String) :=
  [("BASE", "base"), ("PREFIX", "prefix"), ("SELECT", "select"), ("DISTINCT", "distinct"),
   ("REDUCED", "reduced"), ("AS", "as"), ("CONSTRUCT", "construct"),
   ("DESCRIBE", "describe"), ("ASK", "ask"), ("WHERE", "where"), ("FROM", "from"),
   ("NAMED", "named"), ("GROUP_BY", "group by"), ("HAVING", "having"),
   ("ORDER_BY", "order by"), ("ASC", "asc"), ("DESC", "desc"), ("LIMIT", "limit"),
   ("OFFSET", "offset"), ("VALUES", "values"), ("UNDEF", "undef"),
   ("OPTIONAL", "optional"), ("MINUS", "minus"), ("GRAPH", "graph"),
   ("SERVICE", "service"), ("SILENT", "silent"), ("BIND", "bind"), ("FILTER", "filter"),
   ("UNION", "union"), ("EXISTS", "exists"), ("NOT_EXISTS", "not exists"), ("IN", "in"),
   ("NOT_IN", "not in"), ("COUNT", "count"), ("SUM", "sum"), ("MIN", "min"),
   ("MAX", "max"), ("AVG", "avg"), ("SAMPLE", "sample"),
   ("GROUP_CONCAT", "group_concat"), ("SEPARATOR", "separator"), ("LOAD", "load"),
   ("INTO", "into"), ("CLEAR", "clear"), ("DROP", "drop"), ("CREATE", "create"),
   ("ADD", "add"), ("MOVE", "move"), ("COPY", "copy"), ("TO", "to"),
   ("DEFAULT", "default"), ("ALL", "all"), ("INSERT_DATA", "insert data"),
   ("DELETE_DATA", "delete data"), ("DELETE_WHERE", "delete where"),
   ("INSERT", "insert"), ("DELETE", "delete"), ("WITH", "with"), ("USING", "using"),
   ("A", "a")]

def pathKeywords : List (String × String) :=
  [("PATHS", "paths"), ("PATHS_SHORTEST", "paths shortest"), ("PATHS_ALL", "paths all"),
   ("CYCLIC", "cyclic"), ("START", "start"), ("END", "end"), ("VIA", "via"),
   ("MAX_LENGTH", "max length")]

def operators : List (String × String) :=
  [("Star", "*"), ("Equals", "="), ("NotEquals", "!="), ("LessThanEquals", "<="),
   ("GreaterThanEquals", ">="), ("LessThan", "<"), ("GreaterThan", ">"),
   ("LogicalOr", "||"), ("LogicalAnd", "&&"), ("Plus", "+"), ("Minus", "-"),
   ("Bang", "!"), ("ForwardSlash", "/"), ("Pipe", "|"), ("Caret", "^"),
   ("QuestionMark", "?")]

/-- A variable with its mark. -/
def variableRegex (mark : Char) : Text.Regex where
  source := "^\\" ++ mark.toString ++ "\\w+"
  expr := .seq (char mark) (plus (charClass [.word]))

def nilRegex : Text.Regex where
  source := "^\\([ \\t\\r\\n]*\\)"
  expr := Rdf.hollow '(' ')'

def keywordTypes (table : List (String × String)) : List TokenType :=
  table.map fun entry => TokenType.keyword entry.1 entry.2

def builtInTypes : List TokenType :=
  builtIns.map fun text =>
    (TokenType.keyword text.toUpper text).withCategories [.builtInCall]

def vocabulary (dialect : Dialect) : Vocabulary :=
  .ofTypes <|
    builtInTypes ++ keywordTypes keywords ++
    (match dialect with
      | .w3 => []
      | .stardog => keywordTypes pathKeywords) ++
    [TokenType.anyOf "BuiltInCall" .builtInCall,
     ((TokenType.regex "VAR1" (variableRegex '?')).withCategories [.variable]).withLabel "?foo",
     ((TokenType.regex "VAR2" (variableRegex '$')).withCategories [.variable]).withLabel "$foo",
     TokenType.regex "NIL" nilRegex] ++
    Rdf.terms false ++ Rdf.punctuation ++ Rdf.literals .punctuator operators

end GraphLanguages.Sparql
