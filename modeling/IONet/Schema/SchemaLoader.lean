import IONet.Schema.Json
import IONet.Schema.Yaml

namespace IONet

open IONet.Core

inductive SchemaFormat
  | auto | yaml | json
  deriving DecidableEq, Repr

/-- A `std::ifstream` on a path: what `rdbuf` yields and the states that are asked for. -/
structure FileStream where
  isOpen : Bool
  text : String
  bad : Bool

/-- The code that is not part of the repository: the files of the host and the
two format libraries. -/
structure Environment where
  files : String → FileStream
  json : JsonLibrary
  yaml : YamlLibrary

inductive SchemaSource
  | file (path : String)
  | string (content : String) (name : String)
  deriving DecidableEq

namespace SchemaSource

def readFile (path : String) (file : FileStream) : Result String :=
  if !file.isOpen then .error ⟨"Failed to open file: " ++ path⟩
  else if file.bad then .error ⟨"Failed to read file: " ++ path⟩
  else .ok file.text

def read (env : Environment) : SchemaSource → Result String
  | .file path => readFile path (env.files path)
  | .string content _ => .ok content

def description : SchemaSource → String
  | .file path => "file: " ++ path
  | .string _ name => name

end SchemaSource

namespace SchemaLoader

def isspace (c : Char) : Bool := c = ' ' || (9 ≤ c.toNat && c.toNat ≤ 13)

def detectFormat (content : String) : SchemaFormat :=
  match content.toList.find? fun c => !isspace c with
  | none => .yaml
  | some c => if c = '\x7b' || c = '[' then .json else .yaml

variable (env : Environment)

def createParser : SchemaFormat → String → Option (Result Schema)
  | .yaml => YamlSchemaParser.parse env.yaml
  | .json => JsonSchemaParser.parse env.json
  | .auto => YamlSchemaParser.parse env.yaml

/-- `none` where a parser runs into undefined behaviour. -/
def load (source : SchemaSource) (format : SchemaFormat := .auto) : Option (Result Schema) :=
  match source.read env with
  | .error e => some (.error ⟨"Failed to read from " ++ source.description ++ ": " ++ e.message⟩)
  | .ok content =>
    let format := if format = .auto then detectFormat content else format
    (createParser env format content).map fun result =>
      result.mapError fun e => ⟨"Failed to parse " ++ source.description ++ ": " ++ e.message⟩

def fromFile (path : String) (format : SchemaFormat := .auto) : Option (Result Schema) :=
  load env (.file path) format

def fromString (content : String) (format : SchemaFormat := .auto) : Option (Result Schema) :=
  load env (.string content "string") format

def fromYaml (content : String) : Option (Result Schema) := fromString env content .yaml

def fromJson (content : String) : Option (Result Schema) := fromString env content .json

def chosen (format : SchemaFormat) (content : String) : SchemaFormat :=
  if format = .auto then detectFormat content else format

section

variable {env} {source source' : SchemaSource} {format : SchemaFormat}

theorem detectFormat_eq_json_iff (content : String) : detectFormat content = .json ↔
    ∃ blank c rest, content.toList = blank ++ c :: rest ∧ (∀ b ∈ blank, isspace b = true) ∧
      isspace c = false ∧ (c = '\x7b' ∨ c = '[') := by
  unfold detectFormat
  cases hfind : content.toList.find? fun c => !isspace c with
  | none =>
    simp only [reduceCtorEq, false_iff]
    rintro ⟨blank, c, rest, hcontent, -, hc, -⟩
    have hspace := List.find?_eq_none.mp hfind c (by simp [hcontent])
    simp [hc] at hspace
  | some c =>
    obtain ⟨hc, blank, rest, hcontent, hblank⟩ := List.find?_eq_some_iff_append.mp hfind
    simp only [Bool.not_eq_true'] at hc
    constructor
    · intro h
      refine ⟨blank, c, rest, hcontent, by simpa using hblank, hc, ?_⟩
      by_contra hne
      simp_all
    · rintro ⟨blank', c', rest', hcontent', hblank', hc', hbrace⟩
      have hfind' : (content.toList.find? fun c => !isspace c) = some c' :=
        List.find?_eq_some_iff_append.mpr
          ⟨by simp [hc'], blank', rest', hcontent', by simpa using hblank'⟩
      rw [hfind] at hfind'
      cases hfind'
      simp [hbrace]

theorem load_eq_ok_iff {s : Schema} : load env source format = some (.ok s) ↔
    ∃ content, source.read env = .ok content ∧
      createParser env (chosen format content) content = some (.ok s) := by
  unfold load chosen
  cases hread : source.read env with
  | error e => simp
  | ok content =>
    simp only [Except.ok.injEq, exists_eq_left', Option.map_eq_some_iff]
    constructor
    · rintro ⟨result, hresult, hok⟩
      cases result with
      | error e => cases hok
      | ok s' =>
        cases hok
        exact hresult
    · exact fun h => ⟨_, h, rfl⟩

theorem load_eq_error_iff {e : Error} : load env source format = some (.error e) ↔
    (∃ cause, source.read env = .error cause ∧
      e.message = "Failed to read from " ++ source.description ++ ": " ++ cause.message) ∨
    ∃ content cause, source.read env = .ok content ∧
      createParser env (chosen format content) content = some (.error cause) ∧
      e.message = "Failed to parse " ++ source.description ++ ": " ++ cause.message := by
  cases e with
  | mk message =>
    unfold load chosen
    cases hread : source.read env with
    | error cause => simp [eq_comm]
    | ok content =>
      simp only [reduceCtorEq, false_and, exists_false, false_or, Except.ok.injEq, exists_eq_left',
        Option.map_eq_some_iff, exists_and_left]
      constructor
      · rintro ⟨result, hresult, herror⟩
        cases result with
        | ok s => cases herror
        | error cause =>
          cases herror
          exact ⟨cause, hresult, rfl⟩
      · rintro ⟨cause, hcause, rfl⟩
        exact ⟨_, hcause, rfl⟩

end

end SchemaLoader

end IONet
