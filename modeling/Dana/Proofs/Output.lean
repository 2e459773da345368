import Dana.CommandLine
import Dana.Proofs.Layout
import Dana.Proofs.RoundTrip

/-!
# What the program prints

A report can be read back from its text, so a tool that gets the text has the whole report.
With this the two modes of the command line can be compared: they end with the same exit
code, and the line that a person reads says what stands in the report.
-/

namespace Dana

open Json (Definite)

/-! ## Reports as text -/

def Report.ofText? (text : String) : Option Report := do
  let j ← Json.parse? text
  (Report.ofJson nestingLimit j).toOption

theorem Json.definite_ofOption {α : Type} {write : α → Json} (h : ∀ a, (write a).Definite) (o : Option α) :
    (Json.ofOption write o).Definite := by
  cases o with
  | none => exact .null
  | some a => exact h a

theorem Finding.definite_toJson (f : Finding) : f.toJson.Definite := by
  have hline : (Json.ofOption Json.ofWord f.line).Definite := Json.definite_ofOption (fun _ => .int) _
  apply Definite.obj
  simp [Definite.str, hline]

theorem Report.definite_toJson (r : Report) : r.toJson.Definite := by
  have hfile : (Json.ofOption Json.str r.sourceFile).Definite := Json.definite_ofOption (fun _ => .str) _
  have hfindings : (Json.arr (r.findings.map Finding.toJson)).Definite := by
    apply Definite.arr
    intro j hj
    obtain ⟨f, -, rfl⟩ := List.mem_map.mp hj
    exact f.definite_toJson
  apply Definite.obj
  simp [Definite.bool, hfile, hfindings]

theorem Finding.depth_toJson (f : Finding) : f.toJson.depth = 1 := by
  have hline : (Json.ofOption Json.ofWord f.line).depth = 0 := by cases f.line <;> rfl
  simp [toJson, Json.depth, Json.depthMembers, hline]

theorem Report.depth_toJson (r : Report) : r.toJson.depth ≤ 3 := by
  have hfile : (Json.ofOption Json.str r.sourceFile).depth = 0 := by cases r.sourceFile <;> rfl
  have hfindings : Json.depthItems (r.findings.map Finding.toJson) ≤ 1 := by
    induction r.findings with
    | nil => exact Nat.zero_le 1
    | cons f fs ih =>
      rw [List.map_cons, Json.depthItems, f.depth_toJson]
      exact Nat.max_le.mpr ⟨Nat.le_refl 1, ih⟩
  simp only [toJson, Json.depth, Json.depthMembers, hfile]
  omega

theorem Report.ofJson_toJson (r : Report) : Report.ofJson nestingLimit r.toJson = .ok r := by
  have hdepth : r.toJson.depth ≤ nestingLimit := Nat.le_trans r.depth_toJson (by decide)
  exact (Report.reads nestingLimit _ r hdepth).mpr r.spelledBy_toJson

theorem Report.ofText?_text (r : Report) {blanks : String} (h : blanks = "" ∨ blanks = "\n") :
    Report.ofText? (r.text ++ blanks) = some r := by
  have hparse : Json.parse? (r.text ++ blanks) = some r.toJson := Json.parse?_render r.definite_toJson h
  simp only [Report.ofText?, hparse, bind, Option.bind, r.ofJson_toJson]
  rfl

/-- **Nothing is lost in the text of a report**, so the report on a fault, which has all that
a reader is told about it, can be had from what is printed. -/
theorem report_recovered :
    (∀ r : Report, ∃ j, Json.parse? r.text = some j ∧ Report.ofJson nestingLimit j = .ok r) ∧
    ∀ (f : Fault) (file : Option String), Report.ofText? (Report.ofResult (.error f) file).text =
      some ⟨false, file, [⟨f.code, f.kindName, f.message, f.line?⟩]⟩ := by
  constructor
  · intro r
    have hparse := Json.parse?_render r.definite_toJson (.inl rfl)
    rw [String.append_empty] at hparse
    exact ⟨r.toJson, hparse, r.ofJson_toJson⟩
  · intro f file
    have htext := (Report.ofResult (.error f) file).ofText?_text (.inl rfl)
    rw [String.append_empty] at htext
    exact htext

/-! ## The two modes -/

def Program.ofBytes? (content : ByteArray) : Option Program :=
  (String.fromUTF8? content).bind Program.ofText?

namespace Command

theorem readOptions_file {file : String} (h : isOption file = false) (o : Options) (args : List String) :
    readOptions o (file :: args) = (o.withFile file).bind fun o => readOptions o args := by
  have hdashes : file ≠ "--" := by
    intro he
    subst he
    cases h
  have hjson : file ≠ "--json" := by
    intro he
    subst he
    cases h
  rw [readOptions, if_neg hdashes, if_neg hjson, h]
  rfl

/-- A file can have any name but the empty one and what looks like an option. -/
theorem parse?_check_iff {file : String} :
    parse? ["check", file] = some (.check file false) ↔ file ≠ "" ∧ isOption file = false := by
  rw [parse?, if_pos rfl]
  cases hoption : isOption file with
  | false =>
    rw [readOptions_file hoption]
    by_cases hempty : file = ""
    · simp [hempty, Options.withFile]
    · simp [hempty, Options.withFile, readOptions]
  | true =>
    rw [readOptions, readOptions]
    by_cases hdashes : file = "--"
    · simp [hdashes, readFiles]
    by_cases hjson : file = "--json"
    · simp [hjson]
    · simp [hdashes, hjson, hoption]

theorem parse?_check_json {file : String} (h : parse? ["check", file] = some (.check file false)) :
    parse? ["check", file, "--json"] = some (.check file true) := by
  obtain ⟨hempty, hoption⟩ := parse?_check_iff.mp h
  rw [parse?, if_pos rfl, readOptions_file hoption]
  simp [hempty, Options.withFile, readOptions]

end Command

section
variable {file : String} {content : ByteArray} {read : String → Option String} {args : List String} {json : Bool}

theorem respond_of_program {p : Program} (hargs : Command.parse? args = some (.check file json))
    (hread : read file = String.fromUTF8? content) (hp : Program.ofBytes? content = some p) :
    respond read args = .ok (.ofResult file json (check p)) := by
  obtain ⟨text, htext, hp⟩ := Option.bind_eq_some_iff.mp hp
  simp only [respond, hargs, Command.respond, hread, htext, hp]

theorem exitCode_of_no_program (hargs : Command.parse? args = some (.check file json))
    (hread : read file = String.fromUTF8? content) (hp : Program.ofBytes? content = none) :
    exitCode (respond read args) = 2 := by
  simp only [respond, hargs, Command.respond, hread]
  cases htext : String.fromUTF8? content with
  | none => rfl
  | some text =>
    rw [Program.ofBytes?, htext, Option.bind_some] at hp
    simp only [hp]
    rfl

theorem Fault.line?_getD (f : Fault) : f.line?.getD 0 = f.line := by
  unfold line?
  by_cases h : f.line = 0
  · simp [h]
  · simp [h]

/-- The response without `--json` and the one with it, whose output is the text of the report. -/
structure Response.Tells (file : String) (text json : Response) (report : Report) : Prop where
  printed : Report.ofText? json.stdout = some report
  source : report.sourceFile = some file
  success : report.success = true ↔ text.exit = 0
  passed : text.exit = 0 → report.findings = []
  /-- The line that is printed for a person has the message of the finding and its line,
  or 0 if it has none. -/
  failed : text.exit = 1 → ∃ d, report.findings = [d] ∧
    text.stderr = file ++ ":" ++ (d.line.getD 0).toNat.repr ++ ": semantic error: " ++ d.message ++ "\n"

theorem Response.exit_ofResult (file : String) (json : Bool) (result : Except Fault Unit) :
    (ofResult file json result).exit =
      match result with
      | .ok _ => 0
      | .error _ => 1 := by
  cases result <;> cases json <;> rfl

theorem Response.tells_ofResult (file : String) (result : Except Fault Unit) :
    Tells file (ofResult file false result) (ofResult file true result) (Report.ofResult result (some file)) := by
  have hprinted : Report.ofText? (ofResult file true result).stdout = some (Report.ofResult result (some file)) :=
    (Report.ofResult result (some file)).ofText?_text (.inr rfl)
  have hexit := exit_ofResult file false result
  cases result with
  | ok _ =>
    refine ⟨hprinted, rfl, ⟨fun _ => rfl, fun _ => rfl⟩, fun _ => rfl, fun h => ?_⟩
    simp [hexit] at h
  | error f =>
    have hne : (ofResult file false (.error f)).exit ≠ 0 := by simp [hexit]
    refine ⟨hprinted, rfl, ⟨fun h => ?_, fun h => absurd h hne⟩, fun h => absurd h hne, fun _ => ?_⟩
    · cases h
    · refine ⟨.ofFault f, rfl, ?_⟩
      show _ = file ++ ":" ++ (f.line?.getD 0).toNat.repr ++ ": semantic error: " ++ f.message ++ "\n"
      rw [f.line?_getD]
      rfl

/-- **Both modes say the same.** A file of any name and content is checked with one exit code,
with or without `--json`: 0 if it holds a program that passes, 1 if it holds one that does not,
and 2 if it holds none. The report that is printed can be read back, and what it has to say
about a fault is what the text says. -/
theorem modes_agree (hfile : Command.parse? ["check", file] = some (.check file false))
    (hread : read file = String.fromUTF8? content) :
    exitCode (respond read ["check", file, "--json"]) = exitCode (respond read ["check", file]) ∧
    (exitCode (respond read ["check", file]) = 0 ↔
      ∃ p, Program.ofBytes? content = some p ∧ check p = .ok ()) ∧
    (exitCode (respond read ["check", file]) = 1 ↔
      ∃ p f, Program.ofBytes? content = some p ∧ check p = .error f) ∧
    (exitCode (respond read ["check", file]) = 2 ↔ Program.ofBytes? content = none) ∧
    (exitCode (respond read ["check", file]) = 0 ∨ exitCode (respond read ["check", file]) = 1 →
      ∃ text json report, respond read ["check", file] = .ok text ∧
        respond read ["check", file, "--json"] = .ok json ∧ Response.Tells file text json report) := by
  have hjson := Command.parse?_check_json hfile
  cases hp : Program.ofBytes? content with
  | none =>
    have htext := exitCode_of_no_program hfile hread hp
    simp [htext, exitCode_of_no_program hjson hread hp]
  | some p =>
    rw [respond_of_program hfile hread hp, respond_of_program hjson hread hp]
    simp only [exitCode, Response.exit_ofResult]
    refine ⟨trivial, ?_, ?_, ?_, fun _ => ⟨_, _, _, rfl, rfl, Response.tells_ofResult file (check p)⟩⟩
    all_goals cases hc : check p <;> simp [hc]

end

/-- A program with a call of a function whose name is a quotation mark and a control character. -/
def oddCall : Json :=
  .arr [.arr [.obj [("return", .arr [.obj [("call", .arr [.arr [.str "\"\x01"]])]])], .int 7]]

theorem definite_oddCall : oddCall.Definite := by
  have hcall : (Json.obj [("call", .arr [.arr [.str "\"\x01"]])]).Definite :=
    .obj (List.forall_mem_singleton.mpr
      (.arr (List.forall_mem_singleton.mpr (.arr (List.forall_mem_singleton.mpr .str)))))
  have hreturn : (Json.obj [("return", .arr [.obj [("call", .arr [.arr [.str "\"\x01"]])]])]).Definite :=
    .obj (List.forall_mem_singleton.mpr (.arr (List.forall_mem_singleton.mpr hcall)))
  exact .arr (List.forall_mem_singleton.mpr
    (.arr (List.forall_mem_cons.mpr ⟨hreturn, List.forall_mem_singleton.mpr .int⟩)))

theorem fromUTF8?_toUTF8 (s : String) : String.fromUTF8? s.toUTF8 = some s :=
  dif_pos s.isValidUTF8

theorem modes_agree_oddCall :
    Command.parse? ["check", "a \"b\""] = some (.check "a \"b\"" false) ∧
    exitCode (respond (fun _ => some oddCall.render) ["check", "a \"b\"", "--json"]) = 1 ∧
    ∃ text json report, respond (fun _ => some oddCall.render) ["check", "a \"b\""] = .ok text ∧
      respond (fun _ => some oddCall.render) ["check", "a \"b\"", "--json"] = .ok json ∧
      Response.Tells "a \"b\"" text json report := by
  have hfile : Command.parse? ["check", "a \"b\""] = some (.check "a \"b\"" false) := by decide
  have hparse : Json.parse? oddCall.render = some oddCall := by
    have hrender := Json.parse?_render definite_oddCall (.inl rfl)
    rwa [String.append_empty] at hrender
  have hbytes : Program.ofBytes? oddCall.render.toUTF8 = some [⟨.ret (some (.call "\"\x01" [] 0)), 7⟩] := by
    rw [Program.ofBytes?, fromUTF8?_toUTF8, Option.bind_some, Program.ofText?, hparse]
    rfl
  have hcheck : check [⟨.ret (some (.call "\"\x01" [] 0)), 7⟩] = .error ⟨.undefinedFunction "\"\x01", 0⟩ := by rfl
  obtain ⟨hsame, -, hfails, -, htells⟩ := @modes_agree "a \"b\"" oddCall.render.toUTF8
    (fun _ => some oddCall.render) hfile (fromUTF8?_toUTF8 oddCall.render).symm
  have hexit := hfails.mpr ⟨_, _, hbytes, hcheck⟩
  exact ⟨hfile, hsame.trans hexit, htells (.inr hexit)⟩

end Dana
