import AverageLinkage.Journal
import AverageLinkage.Text.Blank
import AverageLinkage.Text.Quoted

/-!
# Formats of the log

A setting selects how log records are written: for a person, or as JSON.  A
setting is a byte string taken from the environment.
-/

namespace AverageLinkage

inductive LogFormat where
  | human
  | json
  deriving DecidableEq, Repr

namespace LogFormat

def default : LogFormat := .human

def settingName : String := "AFFINAGE_LOG_FORMAT"

inductive Fault where
  /-- The name, trimmed and in lower case, is not known. -/
  | unsupported (name : String)
  | notUnicode (content : Text.Bytes)
  deriving DecidableEq, Repr

def Fault.message : Fault → String
  | .unsupported name => s!"unsupported log format `{name}`; expected `human` or `json`"
  | .notUnicode content =>
      s!"environment variable `{settingName}` contained invalid UTF-8: " ++
        s!"environment variable was not valid unicode: {Text.quoteBytes content}"

/-- Read a name, whatever its ASCII case and the blanks around it. -/
def read (text : List Char) : Except Fault LogFormat :=
  let name := (Text.trim text).map Char.toLower
  if name = "human".toList then .ok .human
  else if name = "json".toList then .ok .json
  else .error (.unsupported (String.ofList name))

def ofSetting : Option Text.Bytes → Except Fault LogFormat
  | none => .ok default
  | some content =>
      match Text.decode content with
      | some text => read text
      | none => .error (.notUnicode content)

end LogFormat

namespace Event

def jsonChar (char : Char) : List Char :=
  if char = '"' then ['\\', '"']
  else if char = '\\' then ['\\', '\\']
  else if char.toNat < 0x20 then
    let digits := Text.lowerHex char.toNat
    '\\' :: 'u' :: List.replicate (4 - digits.length) '0' ++ digits
  else [char]

def jsonString (text : String) : String :=
  String.ofList ('"' :: text.toList.flatMap jsonChar ++ ['"'])

/-- A value in a JSON object; only texts are quoted. -/
def jsonValue : FieldValue → String
  | .text content => jsonString content
  | value => value.renderStructured

def toJson (event : Event) : String :=
  let fields := event.fields.map fun (name, value) => jsonString name ++ ":" ++ jsonValue value
  "\x7b\"level\":" ++ jsonString event.level.label ++ ",\"fields\":\x7b" ++
    String.intercalate "," fields ++ "\x7d,\"target\":" ++ jsonString event.topic.path ++ "\x7d"

/-- An event as a line for a reader: level, message and the other fields. -/
def toHuman (event : Event) : String :=
  let (messages, others) := event.fields.partition fun field => field.1 == "message"
  String.intercalate " " (event.level.label :: (event.topic.path ++ ":") ::
    messages.map (·.2.render) ++ others.map fun (name, value) => name ++ "=" ++ value.render)

def render (format : LogFormat) (event : Event) : String :=
  match format with
  | .human => event.toHuman
  | .json => event.toJson

end Event

end AverageLinkage
