import Dana.Proofs.Reading

/-!
# Writing and reading back

What is written is one of the spellings of the node, the one with every field by name.
As readers take all spellings, a node that is written is read back.
-/

namespace Dana

open Spelling FieldSpelling

/-! ## Writing is a spelling -/

theorem Spelling.word_ofWord (n : UInt32) : word n (.ofWord n) := rfl

theorem Spelling.text_str (s : String) : text s (.str s) := rfl

section

variable {α : Type} {sp : α → Spelling} {write : α → Json}

/-- The fields by name and in order, with none left out. -/
theorem Spelling.record_of_members {fs : List FieldSpelling} {ms : List (String × Json)}
    (hnodup : (fs.map FieldSpelling.name).Nodup)
    (h : List.Forall₂ (fun f m => f.name = m.1 ∧ f.value m.2) fs ms) : record fs (.obj ms) := by
  have hkeys : ms.map Prod.fst = fs.map FieldSpelling.name := by
    clear hnodup
    induction h with
    | nil => rfl
    | cons hm _ ih => rw [List.map_cons, List.map_cons, ih, hm.1]
  have hmem : ∀ f ∈ fs, ∃ m ∈ ms, f.name = m.1 ∧ f.value m.2 := by
    clear hnodup hkeys
    induction h with
    | nil => simp
    | cons hm _ ih =>
      intro f hf
      rcases List.mem_cons.mp hf with rfl | hf
      · exact ⟨_, List.mem_cons_self, hm⟩
      · obtain ⟨m, hm, hfm⟩ := ih f hf
        exact ⟨m, List.mem_cons_of_mem _ hm, hfm⟩
  intro f hf
  obtain ⟨⟨key, j⟩, hm, hkey, hj⟩ := hmem f hf
  subst hkey
  rw [hkeys]
  exact ⟨List.nodup_iff_count.mp hnodup f.name, .inl ⟨j, hm, hj⟩⟩

theorem Spelling.list_of_map (h : ∀ a, sp a (write a)) (as : List α) : list sp as (.arr (as.map write)) := by
  refine ⟨_, rfl, ?_⟩
  induction as with
  | nil => exact .nil
  | cons a as ih => exact .cons (h a) ih

theorem Spelling.nullable_ofOption (h : ∀ a, sp a (write a)) (o : Option α) :
    nullable sp o (.ofOption write o) := by
  cases o with
  | none => rfl
  | some a => exact h a

end

theorem ArithOp.spelledBy_toJson (op : ArithOp) : op.SpelledBy op.toJson :=
  ⟨op.symbol, rfl, by cases op <;> rfl⟩

theorem RelOp.spelledBy_toJson (op : RelOp) : op.SpelledBy op.toJson :=
  ⟨op.symbol, rfl, by cases op <;> rfl⟩

theorem LogicOp.spelledBy_toJson (op : LogicOp) : op.SpelledBy op.toJson :=
  ⟨op.symbol, rfl, by cases op <;> rfl⟩

theorem Ty.spelledBy_toJson (ty : Ty) : ty.SpelledBy ty.toJson := by
  induction ty with
  | scalar s => exact ⟨_, rfl, .inl rfl⟩
  | array elem size ih =>
    refine ⟨_, rfl, record_of_members (by simp) ?_⟩
    exact .cons ⟨rfl, ih⟩ (.cons ⟨rfl, nullable_ofOption word_ofWord size⟩ .nil)
  | reference base ih => exact ⟨_, rfl, ih⟩

theorem Ident.spelledBy_toJson (x : Ident) : x.SpelledBy x.toJson := by
  refine record_of_members (by simp) ?_
  exact .cons ⟨rfl, rfl⟩ (.cons ⟨rfl, rfl⟩ .nil)

theorem Group.spelledBy_toJson (g : Group) : g.SpelledBy g.toJson := by
  refine record_of_members (by simp) ?_
  exact .cons ⟨rfl, list_of_map text_str g.names⟩ <| .cons ⟨rfl, g.ty.spelledBy_toJson⟩ <|
    .cons ⟨rfl, rfl⟩ (.cons ⟨rfl, rfl⟩ .nil)

theorem Header.spelledBy_toJson (h : Header) : h.SpelledBy h.toJson := by
  refine record_of_members (by simp) ?_
  exact .cons ⟨rfl, h.ident.spelledBy_toJson⟩ <|
    .cons ⟨rfl, nullable_ofOption Ty.spelledBy_toJson h.result⟩ <|
    .cons ⟨rfl, list_of_map Group.spelledBy_toJson h.groups⟩ (.cons ⟨rfl, rfl⟩ .nil)

theorem Spelling.binary_of_members {op left right : Spelling} {noLeft noRight : Prop} {o l r : Json}
    (ho : op o) (hl : left l) (hr : right r) :
    binary op left right noLeft noRight (.obj [("op", o), ("left", l), ("right", r)]) :=
  record_of_members (by simp) (.cons ⟨rfl, ho⟩ (.cons ⟨rfl, hl⟩ (.cons ⟨rfl, hr⟩ .nil)))

mutual

theorem Expr.spelledBy_toJson : ∀ e : Expr, e.SpelledBy e.toJson
  | ⟨form, _⟩ => record_of_members (by simp)
      (.cons ⟨rfl, form.spelledBy_toJson⟩ (.cons ⟨rfl, rfl⟩ .nil))
termination_by structural e => e

theorem ExprForm.spelledBy_toJson : ∀ form : ExprForm, form.SpelledBy form.toJson
  | .const _ => ⟨_, rfl, rfl⟩
  | .hex _ => ⟨_, rfl, rfl⟩
  | .bool _ => ⟨_, rfl, rfl⟩
  | .place p => ⟨_, rfl, p.spelledBy_toJson⟩
  | .call c => ⟨_, rfl, c.spelledBy_toJson⟩
  | .not operand => ⟨_, rfl, record_of_members (by simp) (.cons ⟨rfl, Expr.spelledBy?_toJson? operand⟩ .nil)⟩
  | .arith op left right => ⟨_, rfl, binary_of_members op.spelledBy_toJson
      (Expr.spelledBy?_toJson? left) (Expr.spelledBy?_toJson? right)⟩
  | .rel op left right => ⟨_, rfl, binary_of_members op.spelledBy_toJson
      (Expr.spelledBy?_toJson? left) (Expr.spelledBy?_toJson? right)⟩
  | .logic op left right => ⟨_, rfl, binary_of_members op.spelledBy_toJson
      (Expr.spelledBy?_toJson? left) (Expr.spelledBy?_toJson? right)⟩
termination_by structural form => form

theorem Place.spelledBy_toJson : ∀ p : Place, p.SpelledBy p.toJson
  | ⟨ident, indices, _, _⟩ => record_of_members (by simp)
      (.cons ⟨rfl, ident.spelledBy_toJson⟩ (.cons ⟨rfl, _, rfl, Expr.eachSpelledBy_listToJson indices⟩
        (.cons ⟨rfl, rfl⟩ (.cons ⟨rfl, rfl⟩ .nil))))
termination_by structural p => p

theorem Call.spelledBy_toJson : ∀ c : Call, c.SpelledBy c.toJson
  | ⟨callee, args, _⟩ => record_of_members (by simp)
      (.cons ⟨rfl, callee.spelledBy_toJson⟩ (.cons ⟨rfl, _, rfl, Expr.eachSpelledBy_listToJson args⟩
        (.cons ⟨rfl, rfl⟩ .nil)))
termination_by structural c => c

theorem Expr.spelledBy?_toJson? : ∀ o : Option Expr, Expr.SpelledBy? o (Expr.toJson? o)
  | none => rfl
  | some e => e.spelledBy_toJson
termination_by structural o => o

theorem Expr.eachSpelledBy_listToJson : ∀ es : List Expr, Expr.EachSpelledBy es (Expr.listToJson es)
  | [] => rfl
  | e :: es => ⟨_, _, rfl, e.spelledBy_toJson, Expr.eachSpelledBy_listToJson es⟩
termination_by structural es => es

end

mutual

theorem Stmt.spelledBy_toJson : ∀ s : Stmt, s.SpelledBy s.toJson
  | ⟨form, _⟩ => record_of_members (by simp)
      (.cons ⟨rfl, form.spelledBy_toJson⟩ (.cons ⟨rfl, rfl⟩ .nil))
termination_by structural s => s

theorem StmtForm.spelledBy_toJson : ∀ form : StmtForm, form.SpelledBy form.toJson
  | .assign target value => ⟨_, rfl, record_of_members (by simp)
      (.cons ⟨rfl, target.spelledBy_toJson⟩ (.cons ⟨rfl, value.spelledBy_toJson⟩ .nil))⟩
  | .skip => .inl rfl
  | .exit => .inl rfl
  | .ret value => ⟨_, rfl, Expr.spelledBy?_eq value ▸ Expr.spelledBy?_toJson? value⟩
  | .brk label => ⟨_, rfl, nullable_ofOption text_str label⟩
  | .cont label => ⟨_, rfl, nullable_ofOption text_str label⟩
  | .cond branches => ⟨_, rfl, _, rfl, Branch.eachSpelledBy_listToJson branches⟩
  | .loop label body => ⟨_, rfl, record_of_members (by simp)
      (.cons ⟨rfl, nullable_ofOption text_str label⟩
        (.cons ⟨rfl, _, rfl, Stmt.eachSpelledBy_listToJson body⟩ .nil))⟩
  | .proc call => ⟨_, rfl, call.spelledBy_toJson⟩
  | .define d => ⟨_, rfl, d.spelledBy_toJson⟩
  | .declare h => ⟨_, rfl, h.spelledBy_toJson⟩
  | .vars names ty => ⟨_, rfl, record_of_members (by simp)
      (.cons ⟨rfl, list_of_map text_str names⟩ (.cons ⟨rfl, ty.spelledBy_toJson⟩ .nil))⟩
termination_by structural form => form

theorem Branch.spelledBy_toJson : ∀ b : Branch, b.SpelledBy b.toJson
  | ⟨condition, body, _⟩ => record_of_members (by simp)
      (.cons ⟨rfl, Expr.spelledBy?_eq condition ▸ Expr.spelledBy?_toJson? condition⟩
        (.cons ⟨rfl, _, rfl, Stmt.eachSpelledBy_listToJson body⟩ (.cons ⟨rfl, rfl⟩ .nil)))
termination_by structural b => b

theorem Definition.spelledBy_toJson : ∀ d : Definition, d.SpelledBy d.toJson
  | ⟨header, body, _⟩ => record_of_members (by simp)
      (.cons ⟨rfl, header.spelledBy_toJson⟩
        (.cons ⟨rfl, _, rfl, Stmt.eachSpelledBy_listToJson body⟩ (.cons ⟨rfl, rfl⟩ .nil)))
termination_by structural d => d

theorem Stmt.eachSpelledBy_listToJson : ∀ ss : List Stmt, Stmt.EachSpelledBy ss (Stmt.listToJson ss)
  | [] => rfl
  | s :: ss => ⟨_, _, rfl, s.spelledBy_toJson, Stmt.eachSpelledBy_listToJson ss⟩
termination_by structural ss => ss

theorem Branch.eachSpelledBy_listToJson : ∀ bs : List Branch, Branch.EachSpelledBy bs (Branch.listToJson bs)
  | [] => rfl
  | b :: bs => ⟨_, _, rfl, b.spelledBy_toJson, Branch.eachSpelledBy_listToJson bs⟩
termination_by structural bs => bs

end

theorem Program.spelledBy_toJson (p : Program) : p.SpelledBy p.toJson :=
  ⟨_, rfl, Stmt.eachSpelledBy_listToJson p⟩

theorem Finding.spelledBy_toJson (f : Finding) : f.SpelledBy f.toJson := by
  refine record_of_members (by simp) ?_
  exact .cons ⟨rfl, rfl⟩ <| .cons ⟨rfl, rfl⟩ <| .cons ⟨rfl, rfl⟩ <|
    .cons ⟨rfl, nullable_ofOption word_ofWord f.line⟩ .nil

theorem Report.spelledBy_toJson (r : Report) : r.SpelledBy r.toJson := by
  refine record_of_members (by simp) ?_
  exact .cons ⟨rfl, rfl⟩ <| .cons ⟨rfl, nullable_ofOption text_str r.sourceFile⟩ <|
    .cons ⟨rfl, list_of_map Finding.spelledBy_toJson r.findings⟩ .nil

/-! ## Main result -/

/-- What is written is read back. So writing what was read changes nothing for a reader,
and different nodes are written differently. -/
structure Lossless {α : Type} (write : α → Json) (read : Nat → Json → Decoded α) : Prop where
  readBack : ∀ a, (write a).decode read = .ok a
  stable : ∀ j : Json, (j.decode read >>= fun a => (write a).decode read) = j.decode read
  injective : ∀ a b, write a = write b → a = b

theorem lossless_of_reads {α : Type} {write : α → Json} {read : Nat → Json → Decoded α} {sp : α → Spelling}
    (hwrite : ∀ a, sp a (write a)) (hread : ∀ d, Reads (read d) sp d) : Lossless write read := by
  have hback : ∀ a, (write a).decode read = .ok a := fun a => (Reads.decode_iff hread).mpr (hwrite a)
  refine ⟨hback, fun j => ?_, fun a b hab => ?_⟩
  · cases hj : j.decode read with
    | error e => rfl
    | ok a => exact hback a
  · have hok : (.ok a : Decoded α) = .ok b := by rw [← hback a, hab, hback b]
    exact Except.ok.inj hok

/-- **Nothing is lost in writing**, for the nodes of every kind, for lines and for reports. -/
theorem toJson_lossless :
    Lossless (fun s : Scalar => .str s.text) (Json.named Scalar.ofText?) ∧
    Lossless Ty.toJson Ty.ofJson ∧
    Lossless Ident.toJson Ident.ofJson ∧
    Lossless Group.toJson Group.ofJson ∧
    Lossless Header.toJson Header.ofJson ∧
    Lossless Definition.toJson Definition.ofJson ∧
    Lossless ArithOp.toJson (fun _ => ArithOp.ofJson) ∧
    Lossless RelOp.toJson (fun _ => RelOp.ofJson) ∧
    Lossless LogicOp.toJson (fun _ => LogicOp.ofJson) ∧
    Lossless ExprForm.toJson ExprForm.ofJson ∧
    Lossless Expr.toJson Expr.ofJson ∧
    Lossless Place.toJson Place.ofJson ∧
    Lossless Call.toJson Call.ofJson ∧
    Lossless Branch.toJson Branch.ofJson ∧
    Lossless StmtForm.toJson StmtForm.ofJson ∧
    Lossless Stmt.toJson Stmt.ofJson ∧
    Lossless Program.toJson Program.ofJson ∧
    Lossless Json.ofWord (fun _ => Json.word) ∧
    Lossless Finding.toJson Finding.ofJson ∧
    Lossless Report.toJson Report.ofJson :=
  ⟨lossless_of_reads (fun _ => .inl rfl) (reads_named Scalar.ofText?_eq_some),
    lossless_of_reads Ty.spelledBy_toJson Ty.reads,
    lossless_of_reads Ident.spelledBy_toJson Ident.reads,
    lossless_of_reads Group.spelledBy_toJson Group.reads,
    lossless_of_reads Header.spelledBy_toJson Header.reads,
    lossless_of_reads Definition.spelledBy_toJson fun d => (Stmt.readTo d).definition,
    lossless_of_reads ArithOp.spelledBy_toJson fun _ => reads_operator,
    lossless_of_reads RelOp.spelledBy_toJson fun _ => reads_operator,
    lossless_of_reads LogicOp.spelledBy_toJson fun _ => reads_operator,
    lossless_of_reads ExprForm.spelledBy_toJson fun d => (Expr.readTo d).form,
    lossless_of_reads Expr.spelledBy_toJson fun d => (Expr.readTo d).expr,
    lossless_of_reads Place.spelledBy_toJson fun d => (Expr.readTo d).place,
    lossless_of_reads Call.spelledBy_toJson fun d => (Expr.readTo d).call,
    lossless_of_reads Branch.spelledBy_toJson fun d => (Stmt.readTo d).branch,
    lossless_of_reads StmtForm.spelledBy_toJson fun d => (Stmt.readTo d).form,
    lossless_of_reads Stmt.spelledBy_toJson fun d => (Stmt.readTo d).stmt,
    lossless_of_reads Program.spelledBy_toJson Program.reads,
    lossless_of_reads word_ofWord fun _ => reads_word,
    lossless_of_reads Finding.spelledBy_toJson Finding.reads,
    lossless_of_reads Report.spelledBy_toJson Report.reads⟩

end Dana
