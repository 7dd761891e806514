import LaunchCpp.Yaml.Value
import LaunchCpp.Library.StringStream

/-! # `YamlParser`

    The four readers of `yaml_parser.cpp` over one string stream, statement by
    statement: each `getline`, `tellg` and `seekg` of the source is one here.
    Every loop and every call uses up fuel; `parse` hands out enough of it
    (`Yaml/ParserRefinement.lean`).

    The one exception the source can throw is kept: `line_str.substr(base_indent
    + 2)` on a line shorter than that.  The line counter and the field stream,
    which are written but never read, are left out. -/

namespace LaunchCpp.Yaml

open StringStreams

/-- Why a call yields no `Result`: `std::out_of_range`, the exception a failed
    read of a file throws, or the fuel of this model ran out. -/
inductive Abort where
  | outOfRange
  | readFailed
  | outOfFuel
  deriving DecidableEq, Repr

/-- What a reader hands back: a value and the stream it leaves. -/
abbrev Outcome (α : Type) := Except Abort (α × IStringStream)

section Readers

variable {D : Type} (stod : Str → Option D)

/-- `parse_value`. -/
def parseValue : Nat → IStringStream → Outcome (Result (YamlValue D))
  | 0, _ => .error .outOfFuel
  | fuel + 1, s =>
      match s.getline with
      | (none, s) => .ok (.ok .null, s)
      | (some lineStr, s) =>
          let lineStr := trim lineStr
          if isSkipped lineStr then parseValue fuel s
          else .ok (parseScalar stod lineStr, s)

/-- The loop of `parse_object` that looks for the next line that counts; the
    stream it leaves is sought back by the caller. -/
def findNext : Nat → IStringStream → Outcome (Option Str)
  | 0, _ => .error .outOfFuel
  | fuel + 1, s =>
      match s.getline with
      | (none, s) => .ok (none, s)
      | (some nextLine, s) =>
          if isSkipped (trim nextLine) then findNext fuel s
          else .ok (some nextLine, s)

mutual

/-- `parse_array`; `result` is what the loop has collected. -/
def parseArray : Nat → IStringStream → Nat → YamlValue D →
    Outcome (Result (YamlValue D))
  | 0, _, _, _ => .error .outOfFuel
  | fuel + 1, s, baseIndent, result =>
      match s.getline with
      | (none, s) => .ok (.ok result, s)
      | (some lineStr, s) =>
          let trimmedLine := trim lineStr
          if isSkipped trimmedLine then parseArray fuel s baseIndent result
          else if getIndent lineStr < baseIndent then
            -- the line is put back by its length, whether or not a newline ended it
            .ok (.ok result, s.seekgCur (-lineStr.length - 1))
          else if isDash trimmedLine then
            let content := trim trimmedLine.tail
            if content = [] then
              match parseValue stod fuel s with
              | .error e => .error e
              | .ok (.error e, s) => .ok (.error e, s)
              | .ok (.ok next, s) =>
                  parseArray fuel s baseIndent (result.addArrayElement next)
            else
              if ':' ∈ content then
                match parseArrayElementObject fuel s lineStr baseIndent with
                | .error e => .error e
                | .ok (element, s) =>
                    parseArray fuel s baseIndent (result.addArrayElement element)
              else
                match parseScalar stod content with
                | .error e => .ok (.error e, s)
                | .ok scalar =>
                    parseArray fuel s baseIndent (result.addArrayElement scalar)
          else parseArray fuel s baseIndent result

/-- `parse_array_element_object`. -/
def parseArrayElementObject : Nat → IStringStream → Str → Nat →
    Outcome (YamlValue D)
  | 0, _, _, _ => .error .outOfFuel
  | fuel + 1, s, firstLine, baseIndent =>
      match keyValue (trim (trim firstLine).tail) with
      | none => elementLoop fuel s.tellg.2 baseIndent s.tellg.1 .null
      | some (key, value) =>
          match parseElementField fuel s baseIndent key value .null with
          | .error e => .error e
          | .ok (objectValue, s) =>
              elementLoop fuel s.tellg.2 baseIndent s.tellg.1 objectValue

/-- A field of an element.  Without a value it reads the one line that
    follows, and an array needs an indent above `threshold` there. -/
def parseElementField : Nat → IStringStream → Nat → Str → Str → YamlValue D →
    Outcome (YamlValue D)
  | 0, _, _, _, _, _ => .error .outOfFuel
  | fuel + 1, s, threshold, key, value, objectValue =>
      if value = [] then
        match s.tellg.2.getline with
        | (none, s) => .ok (objectValue.setObjectField key .null, s)
        | (some nextLine, s') =>
            if threshold < getIndent nextLine ∧ isDash (trim nextLine) then
              match parseArray fuel (s'.seekg s.tellg.1) (getIndent nextLine) .null with
              | .error e => .error e
              | .ok (.error _, s) => .ok (objectValue, s)
              | .ok (.ok array, s) => .ok (objectValue.setObjectField key array, s)
            else
              match parseValue stod fuel (s'.seekg s.tellg.1) with
              | .error e => .error e
              | .ok (.error _, s) => .ok (objectValue, s)
              | .ok (.ok nested, s) => .ok (objectValue.setObjectField key nested, s)
      else
        match parseScalar stod value with
        | .error _ => .ok (objectValue, s)
        | .ok scalar => .ok (objectValue.setObjectField key scalar, s)

/-- The loop of `parse_array_element_object`; `pos` is the position told
    before the line it reads. -/
def elementLoop : Nat → IStringStream → Nat → Option Nat → YamlValue D →
    Outcome (YamlValue D)
  | 0, _, _, _, _ => .error .outOfFuel
  | fuel + 1, s, baseIndent, pos, objectValue =>
      match s.getline with
      | (none, s) => .ok (objectValue, s)
      | (some lineStr, s) =>
          let trimmed := trim lineStr
          if isSkipped trimmed then
            elementLoop fuel s.tellg.2 baseIndent s.tellg.1 objectValue
          else if getIndent lineStr ≤ baseIndent then .ok (objectValue, s.seekg pos)
          -- `substr` throws behind the end of the line
          else if lineStr.length < baseIndent + 2 then .error .outOfRange
          else
            let s := s.tellg.2
            if isDash trimmed then
              match parseArray fuel (s.seekg pos) (getIndent lineStr) .null with
              | .error e => .error e
              -- the array is read to its end, and its value is not used
              | .ok (_, s) => .ok (objectValue, s)
            else
              match keyValue trimmed with
              | some (key, value) =>
                  match parseElementField fuel s (getIndent lineStr) key value
                      objectValue with
                  | .error e => .error e
                  | .ok (objectValue, s) =>
                      elementLoop fuel s.tellg.2 baseIndent s.tellg.1 objectValue
              | none => elementLoop fuel s.tellg.2 baseIndent s.tellg.1 objectValue

end

/-- `parse_object`; `result` is what the loop has collected. -/
def parseObject : Nat → IStringStream → Nat → YamlValue D →
    Outcome (Result (YamlValue D))
  | 0, _, _, _ => .error .outOfFuel
  | fuel + 1, s, baseIndent, result =>
      match s.getline with
      | (none, s) => .ok (.ok result, s)
      | (some lineStr, s) =>
          let trimmed := trim lineStr
          if isSkipped trimmed then parseObject fuel s baseIndent result
          -- the line that ends a nested object is not put back
          else if getIndent lineStr < baseIndent ∧ 0 < baseIndent then
            .ok (.ok result, s)
          else
            match keyValue trimmed with
            | none => parseObject fuel s baseIndent result
            | some (key, value) =>
                if value = [] then
                  match findNext fuel s.tellg.2 with
                  | .error e => .error e
                  | .ok (none, s') =>
                      parseObject fuel s' baseIndent (result.setObjectField key .null)
                  | .ok (some nextLine, s') =>
                      let s := s'.seekg s.tellg.1
                      if getIndent lineStr < getIndent nextLine then
                        match
                          if isDash (trim nextLine) then
                            parseArray stod fuel s (getIndent nextLine) .null
                          else parseObject fuel s (getIndent nextLine) .null
                        with
                        | .error e => .error e
                        | .ok (.error e, s) => .ok (.error e, s)
                        | .ok (.ok nested, s) =>
                            parseObject fuel s baseIndent
                              (result.setObjectField key nested)
                      else
                        parseObject fuel s baseIndent (result.setObjectField key .null)
                else if value.head? = some '[' then
                  parseObject fuel s baseIndent
                    (result.setObjectField key (inlineArray stod value))
                else
                  match parseScalar stod value with
                  | .error e => .ok (.error e, s)
                  | .ok scalar =>
                      parseObject fuel s baseIndent (result.setObjectField key scalar)

/-- `parse`. -/
def parse (content : Str) : Except Abort (Result (YamlValue D)) :=
  match parseObject stod (4 * content.length + 2) (IStringStream.ofString content) 0
      .null with
  | .error e => .error e
  | .ok (result, _) => .ok result

end Readers

end LaunchCpp.Yaml
