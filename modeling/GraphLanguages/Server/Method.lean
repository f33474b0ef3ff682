import GraphLanguages.Rpc.Shape

/-! The methods of the language server protocol, and the shapes of their parameters. -/
namespace GraphLanguages.Server
open Rpc Shape

/-- What a served method does. -/
inductive Service where
  | connected
  | openDocument
  | changeDocument
  | closeDocument
  | updateData
  | complete
  | hover
  | fold
deriving DecidableEq, Repr

inductive Method where
  /-- The first request of a client. -/
  | connect
  | shutdown
  | exit
  /-- Takes back a request; all requests are answered at once, so there is nothing to do. -/
  | cancel
  | notification (service : Option Service) (params : Shape)
  /-- Requests without a service are part of the protocol, but not of this server. -/
  | request (service : Option Service) (params : Shape)

/-! ### Shapes -/

def position : Shape := .record false [needs "line" word32, needs "character" word32]

def range : Shape := .record false [needs "start" position, needs "end" position]

def documentId : Shape := .record false [needs "uri" .uri]

def document : String × Presence × Shape := needs "textDocument" documentId

def place : List (String × Presence × Shape) := [document, needs "position" position]

def progress : List (String × Presence × Shape) :=
  [mayHave "workDoneToken" (.either int32 .string)]

def progressInParts : List (String × Presence × Shape) :=
  progress ++ [mayHave "partialResultToken" (.either int32 .string)]

/-- A record that spreads the fields of others. -/
def spread (fields : List (String × Presence × Shape)) : Shape := .record true fields

def clientCapabilities : Shape :=
  .record false (["workspace", "textDocument", "window", "general"].map fun name =>
    mayHave name (.either (.map .any) (.list .any)))

def workspaceFolder : Shape := .record false [needs "uri" .uri, needs "name" .string]

def connectParams : Shape :=
  .record false
    [mayHave "processId" word32, mayHave "rootPath" .string,
     ("rootUri", .defaulted, .nullable .uri), mayHave "initializationOptions" .any,
     needs "capabilities" clientCapabilities,
     ("trace", .defaulted, .nullable (.word ["off", "messages", "verbose"])),
     mayHave "workspaceFolders" (.list workspaceFolder),
     mayHave "clientInfo" (.record false [needs "name" .string, mayHave "version" .string]),
     mayHave "locale" .string]

def openParams : Shape :=
  .record false
    [needs "textDocument"
      (.record false [needs "uri" .uri, needs "languageId" .string,
        needs "version" int32, needs "text" .string])]

def changeParams : Shape :=
  .record false
    [needs "textDocument" (.record false [needs "uri" .uri, needs "version" int32]),
     needs "contentChanges"
      (.list (.record false
        [mayHave "range" range, mayHave "rangeLength" word32, needs "text" .string]))]

def closeParams : Shape := .record false [document]

def completionParams : Shape :=
  spread (place ++ progressInParts ++
    [mayHave "context"
      (.record false [needs "triggerKind" int32, mayHave "triggerCharacter" .string])])

def atPlace : Shape := spread (place ++ progress)

def atPlaceInParts : Shape := spread (place ++ progressInParts)

def inDocument : Shape := spread (document :: progressInParts)

def command : Shape :=
  .record false
    [needs "title" .string, needs "command" .string, mayHave "arguments" (.list .any)]

def formattingOptions : Shape :=
  spread
    [needs "tabSize" word32, needs "insertSpaces" .bool,
     mayHave "trimTrailingWhitespace" .bool, mayHave "insertFinalNewline" .bool,
     mayHave "trimFinalNewlines" .bool]

def options : String × Presence × Shape := needs "options" formattingOptions

def hierarchyItem : Shape :=
  .record false
    [needs "name" .string, needs "kind" int32, mayHave "tags" .any,
     mayHave "detail" .string, needs "uri" .uri, needs "range" range,
     needs "selectionRange" range, mayHave "data" .any]

def ofItem (progress : List (String × Presence × Shape)) : Shape :=
  spread (needs "item" hierarchyItem :: progress)

def diagnostic : Shape :=
  .record false
    [needs "range" range, mayHave "severity" int32, mayHave "code" (.either int32 .string),
     mayHave "codeDescription" .any, mayHave "source" .string, needs "message" .string,
     mayHave "relatedInformation" .any, mayHave "tags" .any, mayHave "data" .any]

def codeActionContext : Shape :=
  .record false
    [needs "diagnostics" (.list diagnostic), mayHave "only" (.list .string),
     mayHave "triggerKind" int32]

def color : Shape :=
  .record false (["red", "green", "blue", "alpha"].map fun name => needs name .number)

/-- Files by the names of their addresses. -/
def files (names : List String) : Shape :=
  .record false [needs "files" (.list (.record false (names.map fun n => needs n .string)))]

/-! ### Methods -/

def lifecycle : List (String × Method) :=
  [("initialize", .connect), ("shutdown", .shutdown), ("exit", .exit),
   ("$/cancelRequest", .cancel)]

/-- The notification with completion data; its reader checks the parameters. -/
def updateDataMethod : String := "$/didUpdateCompletionData"

def notifications : List (String × Method) :=
  [("initialized", .notification (some .connected) (.either (.map .any) (.list .any))),
   ("textDocument/didOpen", .notification (some .openDocument) openParams),
   ("textDocument/didChange", .notification (some .changeDocument) changeParams),
   ("textDocument/didClose", .notification (some .closeDocument) closeParams),
   (updateDataMethod, .notification (some .updateData) .any)] ++
  ["textDocument/willSave", "textDocument/didSave", "workspace/didChangeConfiguration",
   "workspace/didChangeWorkspaceFolders", "workspace/didCreateFiles",
   "workspace/didRenameFiles", "workspace/didDeleteFiles",
   "workspace/didChangeWatchedFiles"].map fun name => (name, .notification none .any)

def served : List (String × Method) :=
  [("textDocument/completion", .request (some .complete) completionParams),
   ("textDocument/hover", .request (some .hover) atPlace),
   ("textDocument/foldingRange", .request (some .fold) inDocument)]

def unserved : List (String × Method) :=
  [("textDocument/willSaveWaitUntil", .record false [document, needs "reason" int32]),
   ("textDocument/declaration", atPlaceInParts),
   ("textDocument/definition", atPlaceInParts),
   ("textDocument/typeDefinition", atPlaceInParts),
   ("textDocument/implementation", atPlaceInParts),
   ("textDocument/references",
    spread (place ++ progressInParts ++
      [needs "context" (.record false [needs "includeDeclaration" .bool])])),
   ("textDocument/prepareCallHierarchy", atPlace),
   ("callHierarchy/incomingCalls", ofItem progressInParts),
   ("callHierarchy/outgoingCalls", ofItem progressInParts),
   ("textDocument/prepareTypeHierarchy", atPlace),
   ("typeHierarchy/supertypes", ofItem progressInParts),
   ("typeHierarchy/subtypes", ofItem progressInParts),
   ("textDocument/documentHighlight", atPlaceInParts),
   ("textDocument/documentLink", inDocument),
   ("documentLink/resolve",
    .record false
      [needs "range" range, mayHave "target" .uri, mayHave "tooltip" .string,
       mayHave "data" .any]),
   ("textDocument/codeLens", inDocument),
   ("codeLens/resolve",
    .record false [needs "range" range, mayHave "command" command, mayHave "data" .any]),
   ("textDocument/selectionRange",
    spread (document :: needs "positions" (.list position) :: progressInParts)),
   ("textDocument/documentSymbol", inDocument),
   ("textDocument/semanticTokens/full", inDocument),
   ("textDocument/semanticTokens/full/delta",
    spread (document :: needs "previousResultId" .string :: progressInParts)),
   ("textDocument/semanticTokens/range",
    spread (document :: needs "range" range :: progressInParts)),
   ("textDocument/inlineValue",
    spread (document :: needs "range" range ::
      needs "context" (.record false [needs "frameId" int32, needs "stoppedLocation" range])
        :: progress)),
   ("textDocument/inlayHint", spread (document :: needs "range" range :: progress)),
   ("inlayHint/resolve", spread [needs "position" position, needs "label" .any]),
   ("textDocument/moniker", atPlaceInParts),
   ("completionItem/resolve", spread [needs "label" .string]),
   ("textDocument/diagnostic",
    spread (document :: mayHave "identifier" .string :: mayHave "previousResultId" .string
      :: progressInParts)),
   ("workspace/diagnostic",
    spread (mayHave "identifier" .string ::
      needs "previousResultIds"
        (.list (.record false [needs "uri" .uri, needs "value" .string])) ::
      progressInParts)),
   ("textDocument/signatureHelp", atPlace),
   ("textDocument/codeAction",
    spread (document :: needs "range" range :: needs "context" codeActionContext
      :: progressInParts)),
   ("codeAction/resolve", spread [needs "title" .string]),
   ("textDocument/documentColor", inDocument),
   ("textDocument/colorPresentation",
    spread (document :: needs "color" color :: needs "range" range :: progressInParts)),
   ("textDocument/formatting", spread (document :: options :: progress)),
   ("textDocument/rangeFormatting",
    spread (document :: needs "range" range :: options :: progress)),
   ("textDocument/onTypeFormatting", spread (place ++ [needs "ch" .string, options])),
   ("textDocument/rename", spread (place ++ needs "newName" .string :: progress)),
   ("textDocument/prepareRename", .record false place),
   ("textDocument/linkedEditingRange", atPlace),
   ("workspace/symbol", spread (needs "query" .string :: progressInParts)),
   ("workspaceSymbol/resolve",
    spread [needs "name" .string, needs "kind" int32, needs "location" .any]),
   ("workspace/willCreateFiles", files ["uri"]),
   ("workspace/willRenameFiles", files ["oldUri", "newUri"]),
   ("workspace/willDeleteFiles", files ["uri"]),
   ("workspace/executeCommand",
    spread ([needs "command" .string, ("arguments", .defaulted, .list .any)] ++ progress))].map
  fun entry => (entry.1, .request none entry.2)

def Method.ofName? (name : String) : Option Method :=
  (lifecycle ++ notifications ++ served ++ unserved).lookup name

end GraphLanguages.Server
