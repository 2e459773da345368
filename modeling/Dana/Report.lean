import Dana.Format.Signature
import Dana.Json.Printer

/-!
# Reports

The result of checking one program for other tools to read: whether it passed,
where the program came from, and the fault that ended the check.
-/

namespace Dana

structure Finding where
  code : String
  kind : String
  message : String
  line : Option Line
deriving DecidableEq, Repr, Inhabited

structure Report where
  success : Bool
  sourceFile : Option String
  findings : List Finding
deriving DecidableEq, Repr, Inhabited

namespace Finding

def ofFault (f : Fault) : Finding :=
  { code := f.code, kind := f.kindName, message := f.message, line := f.line? }

def toJson (f : Finding) : Json :=
  .obj [("code", .str f.code), ("kind", .str f.kind), ("message", .str f.message),
    ("line", .ofOption .ofWord f.line)]

def ofJson : (room : Nat) → Json → Decoded Finding
  | 0, _ => .error .form
  | _ + 1, j => j.record ["code", "kind", "message", "line"] fun r =>
    .mk <$> r.required "code" Json.text <*> r.required "kind" Json.text
      <*> r.required "message" Json.text <*> r.optional "line" Json.word

end Finding

namespace Report

/-- The report on a result; there is a finding exactly if it is a fault. -/
def ofResult (result : Except Fault Unit) (sourceFile : Option String) : Report :=
  match result with
  | .ok () => { success := true, sourceFile, findings := [] }
  | .error f => { success := false, sourceFile, findings := [.ofFault f] }

def toJson (r : Report) : Json :=
  .obj [("success", .bool r.success), ("source_file", .ofOption .str r.sourceFile),
    ("diagnostics", .arr (r.findings.map Finding.toJson))]

def ofJson : (room : Nat) → Json → Decoded Report
  | 0, _ => .error .form
  | room + 1, j => j.record ["success", "source_file", "diagnostics"] fun r =>
    .mk <$> r.required "success" Json.flag <*> r.optional "source_file" Json.text
      <*> r.required "diagnostics" (Json.list Finding.ofJson room)

def text (r : Report) : String :=
  r.toJson.render

end Report

end Dana
