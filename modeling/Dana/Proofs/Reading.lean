import Dana.Proofs.Reader

/-!
# Reading programs

Each reader takes exactly the spellings of its nodes, and so does the one of programs
(`decode_program_iff`). Readers of nodes call each other with one level less to go, so
those of one family are shown right together, by induction on the level.
-/

namespace Dana

open Spelling FieldSpelling

/-! ## Types -/

theorem Record.line_iff {r : Record} {d : Nat} (hr : r.Within d) {n : Line} :
    r.defaulted "line" 0 Json.word = .ok n ↔ (onLine n).HeldBy r :=
  Record.defaulted_iff reads_word hr

theorem reads_nullable_word {d : Nat} : Reads (Json.nullable Json.word) (nullable word) d :=
  reads_word.nullable fun _ h => nomatch h

theorem reads_nullable_text {d : Nat} : Reads (Json.nullable Json.text) (nullable text) d :=
  reads_text.nullable fun _ h => nomatch h

theorem Scalar.ofText?_eq_some (s : String) (a : Scalar) : Scalar.ofText? s = some a ↔ s = a.text := by
  constructor
  · intro h
    unfold Scalar.ofText? at h
    split at h <;> cases h <;> rfl
  · intro h
    subst h
    cases a <;> rfl

theorem Ty.under_array (ty : Ty) (j : Json) : under "array" Ty.SpelledBy ty j ↔
    ∃ b : Ty × Option UInt32, record [required "elem" b.1.SpelledBy,
      defaulted "size" (nullable word b.2) (b.2 = none)] j ∧ .array b.1 b.2 = ty := by
  cases ty <;> simp [under, Ty.SpelledBy, tagged_obj]

theorem Ty.reads_both : ∀ d, Reads (Ty.ofJson d) Ty.SpelledBy d ∧
    Reads (Ty.arrayOfJson d) (under "array" Ty.SpelledBy) d
  | 0 => by
    refine ⟨reads_zero (fun _ => rfl) fun ty j h => ?_, reads_payload_zero Ty.under_array fun _ => rfl⟩
    cases ty <;> exact depth_pos_of_tagged h
  | d + 1 => by
    obtain ⟨h, harray⟩ := Ty.reads_both d
    constructor
    · refine reads_tagged_succ (fun tag ty => ?_) (fun ty j hj => ?_) fun tag k ty hk => ?_
      · cases ty <;> simp [Ty.SpelledBy, tagged]
      · cases ty <;> obtain ⟨k, rfl, -⟩ := hj <;> exact .inr ⟨_, k, rfl⟩
      · have hscalar := reads_named Scalar.ofText?_eq_some d k
        split
        · simp only [Decoded.map_eq_ok, hscalar _ hk]
          cases ty <;> simp [Ty.SpelledBy, tagged_obj]
        · exact harray k ty hk
        · simp only [Decoded.map_eq_ok, h k _ hk]
          cases ty <;> simp [Ty.SpelledBy, tagged_obj]
        · cases ty <;> simp_all [Ty.SpelledBy, tagged_obj]
    · refine reads_payload Ty.under_array (fun _ => rfl) (by decide) fun r ty hr => ?_
      simp [Record.required_iff h hr, Record.defaulted_iff reads_nullable_word hr, and_assoc]

theorem Ty.reads (d : Nat) : Reads (Ty.ofJson d) Ty.SpelledBy d :=
  (Ty.reads_both d).1

theorem Ty.not_spelledBy_null (ty : Ty) : ¬ ty.SpelledBy .null := by
  cases ty <;> simp [Ty.SpelledBy, tagged]

/-! ## Headers -/

theorem reads_names (d : Nat) : Reads (Json.list (fun _ => Json.text) d) (list text) d :=
  Reads.list (fun _ => reads_text) d

theorem Ident.reads : ∀ d, Reads (Ident.ofJson d) Ident.SpelledBy d
  | 0 => reads_zero (fun _ => rfl) fun _ _ => depth_pos_of_record
  | d + 1 => by
    intro j ⟨name, n⟩ hj
    refine record_ok_iff rfl (by decide) (fun r hr => ?_) hj
    simp [Record.required_iff reads_text hr, Record.line_iff hr]

theorem Group.reads : ∀ d, Reads (Group.ofJson d) Group.SpelledBy d
  | 0 => reads_zero (fun _ => rfl) fun _ _ => depth_pos_of_record
  | d + 1 => by
    intro j ⟨names, ty, byRef, n⟩ hj
    refine record_ok_iff rfl (by decide) (fun r hr => ?_) hj
    simp [Record.required_iff (reads_names d) hr, Record.required_iff (Ty.reads d) hr,
      Record.defaulted_iff reads_flag hr, Record.line_iff hr, and_assoc, -Bool.exists_bool]

theorem Header.reads : ∀ d, Reads (Header.ofJson d) Header.SpelledBy d
  | 0 => reads_zero (fun _ => rfl) fun _ _ => depth_pos_of_record
  | d + 1 => by
    intro j ⟨ident, result, groups, n⟩ hj
    have hty := (Ty.reads d).nullable Ty.not_spelledBy_null
    have hgroups := Reads.list Group.reads d
    refine record_ok_iff rfl (by decide) (fun r hr => ?_) hj
    simp [Record.required_iff (Ident.reads d) hr, Record.defaulted_iff hty hr,
      Record.defaulted_iff hgroups hr, Record.line_iff hr, and_assoc]

/-! ## Expressions -/

theorem Expr.not_spelledBy_null (e : Expr) : ¬ e.SpelledBy .null := by
  cases e
  exact id

theorem Expr.items_eq (es : List Expr) : items (Expr.EachSpelledBy es) = list Expr.SpelledBy es := by
  rw [Expr.eachSpelledBy_eq, list]

section

variable (form : ExprForm) (j : Json)

theorem ExprForm.under_not : under "not" ExprForm.SpelledBy form j ↔
    ∃ o : Option Expr, record [optional "operand" (nullable Expr.SpelledBy o) (o = none)] j ∧ .not o = form := by
  cases form <;> simp [under, ExprForm.SpelledBy, tagged_obj, Expr.spelledBy?_eq]

theorem ExprForm.under_arith : under "arithmetic" ExprForm.SpelledBy form j ↔
    ∃ b : ArithOp × Option Expr × Option Expr, binary b.1.SpelledBy (nullable Expr.SpelledBy b.2.1)
      (nullable Expr.SpelledBy b.2.2) (b.2.1 = none) (b.2.2 = none) j ∧ .arith b.1 b.2.1 b.2.2 = form := by
  cases form <;> simp [under, ExprForm.SpelledBy, tagged_obj, Expr.spelledBy?_eq]

theorem ExprForm.under_rel : under "relational" ExprForm.SpelledBy form j ↔
    ∃ b : RelOp × Option Expr × Option Expr, binary b.1.SpelledBy (nullable Expr.SpelledBy b.2.1)
      (nullable Expr.SpelledBy b.2.2) (b.2.1 = none) (b.2.2 = none) j ∧ .rel b.1 b.2.1 b.2.2 = form := by
  cases form <;> simp [under, ExprForm.SpelledBy, tagged_obj, Expr.spelledBy?_eq]

theorem ExprForm.under_logic : under "logical" ExprForm.SpelledBy form j ↔
    ∃ b : LogicOp × Option Expr × Option Expr, binary b.1.SpelledBy (nullable Expr.SpelledBy b.2.1)
      (nullable Expr.SpelledBy b.2.2) (b.2.1 = none) (b.2.2 = none) j ∧ .logic b.1 b.2.1 b.2.2 = form := by
  cases form <;> simp [under, ExprForm.SpelledBy, tagged_obj, Expr.spelledBy?_eq]

end

/-- The readers of expressions are right on values that nest no deeper than `d`. -/
structure Expr.ReadTo (d : Nat) : Prop where
  expr : Reads (Expr.ofJson d) Expr.SpelledBy d
  form : Reads (ExprForm.ofJson d) ExprForm.SpelledBy d
  not : Reads (ExprForm.notOfJson d) (under "not" ExprForm.SpelledBy) d
  arith : Reads (ExprForm.arithOfJson d) (under "arithmetic" ExprForm.SpelledBy) d
  rel : Reads (ExprForm.relOfJson d) (under "relational" ExprForm.SpelledBy) d
  logic : Reads (ExprForm.logicOfJson d) (under "logical" ExprForm.SpelledBy) d
  place : Reads (Place.ofJson d) Place.SpelledBy d
  call : Reads (Call.ofJson d) Call.SpelledBy d
  list : Reads (Expr.listOfJson d) (list Expr.SpelledBy) d

theorem Expr.readTo_zero : Expr.ReadTo 0 where
  expr := reads_zero (fun _ => rfl) fun ⟨_, _⟩ _ h => depth_pos_of_record h
  form := reads_zero (fun _ => rfl) fun form _ h => by cases form <;> exact depth_pos_of_tagged h
  not := reads_payload_zero ExprForm.under_not fun _ => rfl
  arith := reads_payload_zero ExprForm.under_arith fun _ => rfl
  rel := reads_payload_zero ExprForm.under_rel fun _ => rfl
  logic := reads_payload_zero ExprForm.under_logic fun _ => rfl
  place := reads_zero (fun _ => rfl) fun ⟨_, _, _, _⟩ _ h => depth_pos_of_record h
  call := reads_zero (fun _ => rfl) fun ⟨_, _, _⟩ _ h => depth_pos_of_record h
  list := reads_zero (fun _ => rfl) fun _ _ h => depth_pos_of_items h

section

variable {d : Nat}

theorem reads_binary {α : Type} {make : α → Option Expr → Option Expr → ExprForm} {read : Json → Decoded α}
    {op : α → Spelling} {sp : ExprForm → Spelling}
    (hsp : ∀ form j, sp form j ↔ ∃ b : α × Option Expr × Option Expr, binary (op b.1)
      (nullable Expr.SpelledBy b.2.1) (nullable Expr.SpelledBy b.2.2) (b.2.1 = none) (b.2.2 = none) j ∧
        make b.1 b.2.1 b.2.2 = form)
    (hop : Reads read op d) (h : Reads (Expr.ofJson d) Expr.SpelledBy d) :
    Reads (Json.binary make read (Expr.ofJson d)) sp (d + 1) := by
  refine reads_payload hsp (fun _ => rfl) (by decide) fun r form hr => ?_
  simp [Record.required_iff hop hr, Record.optional_iff h Expr.not_spelledBy_null hr, and_assoc]

namespace Expr.ReadTo

theorem form_succ (h : Expr.ReadTo d) : Reads (ExprForm.ofJson (d + 1)) ExprForm.SpelledBy (d + 1) := by
  refine reads_tagged_succ (fun tag form => ?_) (fun form j hj => ?_) fun tag k form hk => ?_
  · cases form <;> simp [ExprForm.SpelledBy, tagged]
  · cases form <;> obtain ⟨k, rfl, -⟩ := hj <;> exact .inr ⟨_, k, rfl⟩
  · split
    · simp only [Decoded.map_eq_ok, reads_signedWord k _ hk]
      cases form <;> simp [ExprForm.SpelledBy, tagged_obj]
    · simp only [Decoded.map_eq_ok, reads_signedWord k _ hk]
      cases form <;> simp [ExprForm.SpelledBy, tagged_obj]
    · simp only [Decoded.map_eq_ok, reads_flag k _ hk]
      cases form <;> simp [ExprForm.SpelledBy, tagged_obj]
    · simp only [Decoded.map_eq_ok, h.place k _ hk]
      cases form <;> simp [ExprForm.SpelledBy, tagged_obj]
    · simp only [Decoded.map_eq_ok, h.call k _ hk]
      cases form <;> simp [ExprForm.SpelledBy, tagged_obj]
    · exact h.not k form hk
    · exact h.arith k form hk
    · exact h.rel k form hk
    · exact h.logic k form hk
    · cases form <;> simp_all [ExprForm.SpelledBy, tagged_obj]

theorem place_succ (h : Expr.ReadTo d) : Reads (Place.ofJson (d + 1)) Place.SpelledBy (d + 1) := by
  intro j ⟨ident, indices, isString, n⟩ hj
  refine record_ok_iff rfl (by decide) (fun r hr => ?_) hj
  simp [Record.required_iff (Ident.reads d) hr, Record.defaulted_iff h.list hr,
    Record.defaulted_iff reads_flag hr, Record.line_iff hr, Expr.items_eq, and_assoc, -Bool.exists_bool]

theorem call_succ (h : Expr.ReadTo d) : Reads (Call.ofJson (d + 1)) Call.SpelledBy (d + 1) := by
  intro j ⟨callee, args, n⟩ hj
  refine record_ok_iff rfl (by decide) (fun r hr => ?_) hj
  simp [Record.required_iff (Ident.reads d) hr, Record.defaulted_iff h.list hr, Record.line_iff hr, Expr.items_eq]

theorem succ (h : Expr.ReadTo d) : Expr.ReadTo (d + 1) where
  expr j e hj := by
    obtain ⟨form, n⟩ := e
    refine record_ok_iff rfl (by decide) (fun r hr => ?_) hj
    simp [Record.required_iff h.form hr, Record.line_iff hr]
  form := h.form_succ
  not := by
    refine reads_payload ExprForm.under_not (fun _ => rfl) (by decide) fun r form hr => ?_
    simp [Record.optional_iff h.expr Expr.not_spelledBy_null hr]
  arith := reads_binary ExprForm.under_arith reads_operator h.expr
  rel := reads_binary ExprForm.under_rel reads_operator h.expr
  logic := reads_binary ExprForm.under_logic reads_operator h.expr
  place := h.place_succ
  call := h.call_succ
  list := h.expr.items

end Expr.ReadTo

end

theorem Expr.readTo : ∀ d, Expr.ReadTo d
  | 0 => Expr.readTo_zero
  | d + 1 => (Expr.readTo d).succ

/-! ## Statements -/

theorem Stmt.items_eq (ss : List Stmt) : items (Stmt.EachSpelledBy ss) = list Stmt.SpelledBy ss := by
  rw [Stmt.eachSpelledBy_eq, list]

theorem Branch.items_eq (bs : List Branch) : items (Branch.EachSpelledBy bs) = list Branch.SpelledBy bs := by
  rw [Branch.eachSpelledBy_eq, list]

theorem reads_nullable_expr (d : Nat) : Reads (Json.nullable (Expr.ofJson d)) (nullable Expr.SpelledBy) d :=
  (Expr.readTo d).expr.nullable Expr.not_spelledBy_null

section

variable (form : StmtForm) (j : Json)

theorem StmtForm.under_assign : under "assign" StmtForm.SpelledBy form j ↔
    ∃ b : Place × Expr, record [required "target" b.1.SpelledBy, required "value" b.2.SpelledBy] j ∧
      .assign b.1 b.2 = form := by
  cases form <;> simp [under, StmtForm.SpelledBy, tagged_obj, named_obj]

theorem StmtForm.under_loop : under "loop" StmtForm.SpelledBy form j ↔
    ∃ b : Option String × List Stmt, record [defaulted "label" (nullable text b.1) (b.1 = none),
      required "body" (list Stmt.SpelledBy b.2)] j ∧ .loop b.1 b.2 = form := by
  cases form <;> simp [under, StmtForm.SpelledBy, tagged_obj, named_obj, Stmt.items_eq]

theorem StmtForm.under_vars : under "var_decl" StmtForm.SpelledBy form j ↔
    ∃ b : List String × Ty, record [required "names" (list text b.1), required "ty" b.2.SpelledBy] j ∧
      .vars b.1 b.2 = form := by
  cases form <;> simp [under, StmtForm.SpelledBy, tagged_obj, named_obj]

theorem StmtForm.ofTag_iff (tag : String) (form : StmtForm) :
    StmtForm.ofTag tag = .ok form ↔ form.SpelledBy (.str tag) := by
  unfold StmtForm.ofTag
  split
  · cases form <;> simp [StmtForm.SpelledBy, tagged, named]
  · cases form <;> simp [StmtForm.SpelledBy, tagged, named]
  · cases form <;> simp_all [StmtForm.SpelledBy, tagged, named]

theorem StmtForm.SpelledBy.tag {form : StmtForm} {j : Json} (h : form.SpelledBy j) :
    (∃ tag, j = .str tag) ∨ ∃ tag k, j = .obj [(tag, k)] := by
  cases form with
  | skip | exit => exact h.imp (fun h => ⟨_, h⟩) fun h => ⟨_, _, h⟩
  | _ =>
    obtain ⟨k, rfl, -⟩ := h
    exact .inr ⟨_, k, rfl⟩

end

/-- The readers of statements are right on values that nest no deeper than `d`. -/
structure Stmt.ReadTo (d : Nat) : Prop where
  stmt : Reads (Stmt.ofJson d) Stmt.SpelledBy d
  form : Reads (StmtForm.ofJson d) StmtForm.SpelledBy d
  assign : Reads (StmtForm.assignOfJson d) (under "assign" StmtForm.SpelledBy) d
  loop : Reads (StmtForm.loopOfJson d) (under "loop" StmtForm.SpelledBy) d
  vars : Reads (StmtForm.varsOfJson d) (under "var_decl" StmtForm.SpelledBy) d
  branch : Reads (Branch.ofJson d) Branch.SpelledBy d
  definition : Reads (Definition.ofJson d) Definition.SpelledBy d
  list : Reads (Stmt.listOfJson d) (list Stmt.SpelledBy) d
  branches : Reads (Branch.listOfJson d) (Spelling.list Branch.SpelledBy) d

theorem Stmt.readTo_zero : Stmt.ReadTo 0 where
  stmt := reads_zero (fun _ => rfl) fun ⟨_, _⟩ _ h => depth_pos_of_record h
  form := reads_tagged_zero StmtForm.ofTag_iff fun _ _ h => h.tag
  assign := reads_payload_zero StmtForm.under_assign fun _ => rfl
  loop := reads_payload_zero StmtForm.under_loop fun _ => rfl
  vars := reads_payload_zero StmtForm.under_vars fun _ => rfl
  branch := reads_zero (fun _ => rfl) fun ⟨_, _, _⟩ _ h => depth_pos_of_record h
  definition := reads_zero (fun _ => rfl) fun ⟨_, _, _⟩ _ h => depth_pos_of_record h
  list := reads_zero (fun _ => rfl) fun _ _ h => depth_pos_of_items h
  branches := reads_zero (fun _ => rfl) fun _ _ h => depth_pos_of_items h

namespace Stmt.ReadTo

variable {d : Nat}

theorem form_succ (h : Stmt.ReadTo d) : Reads (StmtForm.ofJson (d + 1)) StmtForm.SpelledBy (d + 1) := by
  refine reads_tagged_succ StmtForm.ofTag_iff (fun _ _ h => h.tag) fun tag k form hk => ?_
  split
  · exact h.assign k form hk
  · simp only [Decoded.map_eq_ok, reads_nullable_expr d k _ hk]
    cases form <;> simp [StmtForm.SpelledBy, tagged_obj, named_obj]
  · simp only [Decoded.map_eq_ok, reads_nullable_text k _ hk]
    cases form <;> simp [StmtForm.SpelledBy, tagged_obj, named_obj]
  · simp only [Decoded.map_eq_ok, reads_nullable_text k _ hk]
    cases form <;> simp [StmtForm.SpelledBy, tagged_obj, named_obj]
  · simp only [Decoded.map_eq_ok, h.branches k _ hk]
    cases form <;> simp [StmtForm.SpelledBy, tagged_obj, named_obj, Branch.items_eq]
  · exact h.loop k form hk
  · simp only [Decoded.map_eq_ok, (Expr.readTo d).expr k _ hk]
    cases form <;> simp [StmtForm.SpelledBy, tagged_obj, named_obj]
  · simp only [Decoded.map_eq_ok, h.definition k _ hk]
    cases form <;> simp [StmtForm.SpelledBy, tagged_obj, named_obj]
  · simp only [Decoded.map_eq_ok, Header.reads d k _ hk]
    cases form <;> simp [StmtForm.SpelledBy, tagged_obj, named_obj]
  · exact h.vars k form hk
  · cases k with
    | null =>
      simp only [StmtForm.ofTagNull, StmtForm.ofTag_iff]
      cases form <;> simp_all [StmtForm.SpelledBy, tagged, named]
    | _ => cases form <;> simp_all [StmtForm.ofTagNull, StmtForm.SpelledBy, tagged_obj, named_obj]

theorem branch_succ (h : Stmt.ReadTo d) : Reads (Branch.ofJson (d + 1)) Branch.SpelledBy (d + 1) := by
  intro j ⟨condition, body, n⟩ hj
  refine record_ok_iff rfl (by decide) (fun r hr => ?_) hj
  simp [Record.defaulted_iff (reads_nullable_expr d) hr, Record.defaulted_iff h.list hr, Record.line_iff hr,
    Stmt.items_eq]

theorem definition_succ (h : Stmt.ReadTo d) : Reads (Definition.ofJson (d + 1)) Definition.SpelledBy (d + 1) := by
  intro j ⟨header, body, n⟩ hj
  refine record_ok_iff rfl (by decide) (fun r hr => ?_) hj
  simp [Record.required_iff (Header.reads d) hr, Record.defaulted_iff h.list hr, Record.line_iff hr,
    Stmt.items_eq]

theorem succ (h : Stmt.ReadTo d) : Stmt.ReadTo (d + 1) where
  stmt j s hj := by
    obtain ⟨form, n⟩ := s
    refine record_ok_iff rfl (by decide) (fun r hr => ?_) hj
    simp [Record.required_iff h.form hr, Record.line_iff hr]
  form := h.form_succ
  assign := by
    refine reads_payload StmtForm.under_assign (fun _ => rfl) (by decide) fun r form hr => ?_
    simp [Record.required_iff (Expr.readTo d).place hr, Record.required_iff (Expr.readTo d).expr hr, and_assoc]
  loop := by
    refine reads_payload StmtForm.under_loop (fun _ => rfl) (by decide) fun r form hr => ?_
    simp [Record.defaulted_iff reads_nullable_text hr, Record.required_iff h.list hr, and_assoc]
  vars := by
    refine reads_payload StmtForm.under_vars (fun _ => rfl) (by decide) fun r form hr => ?_
    simp [Record.required_iff (reads_names d) hr, Record.required_iff (Ty.reads d) hr, and_assoc]
  branch := h.branch_succ
  definition := h.definition_succ
  list := h.stmt.items
  branches := h.branch.items

end Stmt.ReadTo

theorem Stmt.readTo : ∀ d, Stmt.ReadTo d
  | 0 => Stmt.readTo_zero
  | d + 1 => (Stmt.readTo d).succ

/-! ## Reports -/

theorem Finding.reads : ∀ d, Reads (Finding.ofJson d) Finding.SpelledBy d
  | 0 => reads_zero (fun _ => rfl) fun _ _ => depth_pos_of_record
  | d + 1 => by
    intro j ⟨code, kind, message, n⟩ hj
    have hword : ∀ n, ¬ word n .null := fun _ h => nomatch h
    refine record_ok_iff rfl (by decide) (fun r hr => ?_) hj
    simp [Record.required_iff reads_text hr, Record.optional_iff reads_word hword hr, and_assoc]

theorem Report.reads : ∀ d, Reads (Report.ofJson d) Report.SpelledBy d
  | 0 => reads_zero (fun _ => rfl) fun _ _ => depth_pos_of_record
  | d + 1 => by
    intro j ⟨success, source, findings⟩ hj
    have htext : ∀ s, ¬ Spelling.text s .null := fun _ h => nomatch h
    have hfindings := Reads.list Finding.reads d
    refine record_ok_iff rfl (by decide) (fun r hr => ?_) hj
    simp [Record.required_iff reads_flag hr, Record.optional_iff reads_text htext hr,
      Record.required_iff hfindings hr, -Bool.exists_bool]

/-! ## Main result -/

theorem Reads.decode_iff {α : Type} {read : Nat → Json → Decoded α} {sp : α → Spelling}
    (h : ∀ d, Reads (read d) sp d) {j : Json} {a : α} : j.decode read = .ok a ↔ sp a j :=
  h j.depth j a (Nat.le_refl _)

theorem Program.reads (d : Nat) : Reads (Program.ofJson d) Program.SpelledBy d := by
  intro j p hj
  rw [Program.SpelledBy, Stmt.items_eq]
  exact (Stmt.readTo d).list j p hj

/-- **Reading takes just the spellings.** A value is read as a program exactly if it
spells it, in whatever mix of objects and arrays; all other values are refused. Of the
values that repeat a name in an object, those are refused that give a field twice. -/
theorem decode_program_iff (j : Json) (p : Program) :
    j.decode Program.ofJson = .ok p ↔ p.SpelledBy j :=
  Reads.decode_iff Program.reads

-- Fields in order and fields by name, the first without its line.
example : Json.decode Program.ofJson (.arr [.arr [.str "skip"],
    .obj [("line", .int 2), ("kind", .obj [("exit", .null)])]]) = .ok [⟨.skip, 0⟩, ⟨.exit, 2⟩] := by
  rfl

end Dana
