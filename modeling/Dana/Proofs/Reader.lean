import Dana.Proofs.Spelling

/-!
# Readers and spellings

A reader with room for `d` levels reads a spelling if, of the values that nest no
deeper, it takes just those that spell something, and gives what they spell. This is
shown here of the readers that all others are put together from.
-/

namespace Dana

variable {α β : Type}

def Reads (read : Json → Decoded α) (sp : α → Spelling) (d : Nat) : Prop :=
  ∀ (j : Json) (a : α), j.depth ≤ d → (read j = .ok a ↔ sp a j)

theorem Decoded.map_eq_ok {f : α → β} {x : Decoded α} {b : β} :
    f <$> x = .ok b ↔ ∃ a, x = .ok a ∧ f a = b := by
  cases x <;> simp [Functor.map, Except.map]

/-! ## Depth -/

namespace Json

theorem depth_lt_of_mem_items {js : List Json} {j : Json} (h : j ∈ js) : j.depth < (arr js).depth := by
  have hle : j.depth ≤ depthItems js := by
    induction js with
    | nil => cases h
    | cons k js ih =>
      simp only [depthItems]
      rcases List.mem_cons.mp h with rfl | h
      · exact Nat.le_max_left ..
      · exact Nat.le_trans (ih h) (Nat.le_max_right ..)
  exact Nat.lt_succ_of_le hle

theorem depth_lt_of_mem_members {ms : List (String × Json)} {name : String} {j : Json}
    (h : (name, j) ∈ ms) : j.depth < (obj ms).depth := by
  have hle : j.depth ≤ depthMembers ms := by
    induction ms with
    | nil => cases h
    | cons m ms ih =>
      obtain ⟨key, k⟩ := m
      simp only [depthMembers]
      rcases List.mem_cons.mp h with hm | h
      · cases hm
        exact Nat.le_max_left ..
      · exact Nat.le_trans (ih h) (Nat.le_max_right ..)
  exact Nat.lt_succ_of_le hle

end Json

-- What opens an array or an object has no spelling at depth zero, so that its reader may
-- refuse all values there.
theorem reads_zero {read : Json → Decoded α} {sp : α → Spelling}
    (hread : ∀ j, read j = .error .form) (hsp : ∀ a j, sp a j → 0 < j.depth) : Reads read sp 0 := by
  intro j a hj
  rw [hread]
  refine ⟨fun h => (nomatch h), fun h => ?_⟩
  have := hsp a j h
  omega

namespace Spelling

theorem depth_pos_of_items {each : List Json → Prop} {j : Json} (h : items each j) : 0 < j.depth := by
  obtain ⟨js, rfl, -⟩ := h
  simp [Json.depth]

theorem depth_pos_of_tagged {tag : String} {payload : Spelling} {j : Json} (h : tagged tag payload j) :
    0 < j.depth := by
  obtain ⟨k, rfl, -⟩ := h
  simp [Json.depth]

theorem depth_pos_of_record {fs : List FieldSpelling} {j : Json} (h : record fs j) : 0 < j.depth := by
  cases j <;> simp_all [Json.depth, record]

end Spelling

/-! ## Plain values -/

section

variable {d : Nat}

theorem reads_text : Reads Json.text Spelling.text d := by
  intro j a _
  cases j <;> simp [Json.text, Spelling.text]

theorem reads_flag : Reads Json.flag Spelling.flag d := by
  intro j a _
  cases j <;> simp [Json.flag, Spelling.flag]

theorem reads_word : Reads Json.word Spelling.word d := by
  intro j a _
  cases j with
  | int n =>
    simp only [Json.word, Spelling.word, Json.int.injEq]
    have ha := a.toNat_lt
    split
    · rename_i hn
      rw [Except.ok.injEq, ← UInt32.toNat_inj, UInt32.toNat_ofNat']
      omega
    · simp only [reduceCtorEq, false_iff]
      omega
  | _ => simp [Json.word, Spelling.word]

theorem reads_signedWord : Reads Json.signedWord Spelling.signedWord d := by
  intro j a _
  cases j with
  | int n =>
    simp only [Json.signedWord, Spelling.signedWord, Json.int.injEq]
    have hlo := a.le_toInt
    have hhi := a.toInt_lt
    split
    · rename_i hn
      rw [Except.ok.injEq, ← Int32.toInt_inj, Int32.toInt_ofInt_of_le (by omega) (by omega)]
    · simp only [reduceCtorEq, false_iff]
      omega
  | _ => simp [Json.signedWord, Spelling.signedWord]

theorem reads_operator {read : String → Option α} : Reads (Json.operator read) (Spelling.operator read) d := by
  intro j a _
  cases j with
  | str s =>
    simp only [Json.operator, Spelling.operator, Json.str.injEq, exists_eq_left']
    cases read s <;> simp
  | _ => simp [Json.operator, Spelling.operator]

/-- A value has to be told from its absence. -/
theorem Reads.nullable {read : Json → Decoded α} {sp : α → Spelling} (h : Reads read sp d)
    (hnull : ∀ a, ¬ sp a .null) : Reads (Json.nullable read) (Spelling.nullable sp) d := by
  intro j o hj
  have hsome : ∀ j : Json, j ≠ .null → Json.nullable read j = some <$> read j := by
    intro j hne
    cases j <;> first | rfl | exact absurd rfl hne
  by_cases hn : j = .null
  · subst hn
    cases o <;> simp [Json.nullable, Spelling.nullable, hnull]
  · rw [hsome j hn, Decoded.map_eq_ok]
    cases o <;> simp [Spelling.nullable, hn, h j _ hj]

theorem mapM_eq_ok {read : Json → Decoded α} {sp : α → Spelling} : ∀ {js : List Json} {as : List α},
    (∀ j ∈ js, ∀ a, read j = .ok a ↔ sp a j) → (js.mapM read = .ok as ↔ List.Forall₂ sp as js)
  | [], as, _ => by cases as <;> simp [pure, Except.pure]
  | j :: js, as, h => by
    have ih : ∀ rest, js.mapM read = .ok rest ↔ List.Forall₂ sp rest js := by
      intro rest
      exact mapM_eq_ok fun k hk => h k (List.mem_cons_of_mem _ hk)
    rw [List.mapM_cons, List.forall₂_cons_right_iff]
    simp only [← h j List.mem_cons_self, ← ih]
    cases read j with
    | error e => simp [bind, Except.bind]
    | ok a =>
      cases js.mapM read with
      | error e => simp [bind, Except.bind]
      | ok rest => simp [bind, Except.bind, pure, Except.pure, eq_comm]

theorem Reads.items {read : Json → Decoded α} {sp : α → Spelling} (h : Reads read sp d) :
    Reads (Json.items read) (Spelling.list sp) (d + 1) := by
  intro j as hj
  cases j with
  | arr js =>
    have hread : ∀ k ∈ js, ∀ a, read k = .ok a ↔ sp a k := by
      intro k hk a
      have hlt := Json.depth_lt_of_mem_items hk
      exact h k a (by omega)
    simp [Json.items, Spelling.list, Spelling.items, mapM_eq_ok hread]
  | _ => simp [Json.items, Spelling.list, Spelling.items]

theorem Reads.list {read : Nat → Json → Decoded α} {sp : α → Spelling} (h : ∀ d, Reads (read d) sp d) :
    ∀ d, Reads (Json.list read d) (Spelling.list sp) d
  | 0 => reads_zero (fun _ => rfl) fun _ _ => Spelling.depth_pos_of_items
  | d + 1 => (h d).items

/-! ## Tagged values -/

theorem tagged_eq_ok {bare : String → Decoded α} {held : String → Json → Decoded α} {j : Json} {a : α} :
    j.tagged bare held = .ok a ↔
      (∃ tag, j = .str tag ∧ bare tag = .ok a) ∨ ∃ tag k, j = .obj [(tag, k)] ∧ held tag k = .ok a := by
  cases j with
  | str tag => simp [Json.tagged]
  | obj ms =>
    cases ms with
    | nil => simp [Json.tagged]
    | cons m ms =>
      obtain ⟨tag, k⟩ := m
      cases hk : held tag k <;> cases ms <;> simp [Json.tagged, bind, Except.bind, hk]
  | _ => simp [Json.tagged]

/-- What may stand under a tag. -/
def Spelling.under (tag : String) (sp : α → Spelling) : α → Spelling :=
  fun a j => sp a (.obj [(tag, j)])

theorem Spelling.tagged_obj {tag name : String} {payload : Spelling} {k : Json} :
    tagged tag payload (.obj [(name, k)]) ↔ name = tag ∧ payload k := by
  simp [tagged, and_assoc]

theorem Spelling.named_obj {tag name : String} {k : Json} :
    named tag (.obj [(name, k)]) ↔ name = tag ∧ k = .null := by
  simp [named]

section

variable {bare : String → Decoded α} {held : String → Json → Decoded α} {sp : α → Spelling}
  (hbare : ∀ tag a, bare tag = .ok a ↔ sp a (.str tag))
  (hsp : ∀ a j, sp a j → (∃ tag, j = .str tag) ∨ ∃ tag k, j = .obj [(tag, k)])
include hbare hsp

/-- A reader of tags is right if it is right on each tag, alone and with a payload. -/
theorem reads_tagged (hheld : ∀ tag k a, (Json.obj [(tag, k)]).depth ≤ d →
    (held tag k = .ok a ↔ sp a (.obj [(tag, k)]))) : Reads (Json.tagged bare held) sp d := by
  intro j a hj
  rw [tagged_eq_ok]
  constructor
  · rintro (⟨tag, rfl, h⟩ | ⟨tag, k, rfl, h⟩)
    · exact (hbare tag a).mp h
    · exact (hheld tag k a hj).mp h
  · intro h
    rcases hsp a j h with ⟨tag, rfl⟩ | ⟨tag, k, rfl⟩
    · exact .inl ⟨tag, rfl, (hbare tag a).mpr h⟩
    · exact .inr ⟨tag, k, rfl, (hheld tag k a hj).mpr h⟩

theorem reads_tagged_zero : Reads (Json.tagged bare held) sp 0 := by
  refine reads_tagged hbare hsp fun tag k a hk => ?_
  simp [Json.depth] at hk

theorem reads_tagged_succ (hheld : ∀ tag k a, k.depth ≤ d → (held tag k = .ok a ↔ sp a (.obj [(tag, k)]))) :
    Reads (Json.tagged bare held) sp (d + 1) := by
  refine reads_tagged hbare hsp fun tag k a hk => hheld tag k a ?_
  simpa [Json.depth, Json.depthMembers] using hk

end

/-- Tags of values that have no payload. -/
theorem reads_named {read : String → Option α} {tag : α → String} (h : ∀ s a, read s = some a ↔ s = tag a) :
    ∀ d, Reads (Json.named read d) (fun a => Spelling.named (tag a)) d := by
  have hbare : ∀ s a, Json.named.bare read s = .ok a ↔ Spelling.named (tag a) (.str s) := by
    intro s a
    have : Spelling.named (tag a) (.str s) ↔ s = tag a := by simp [Spelling.named]
    rw [this, ← h]
    unfold Json.named.bare
    cases read s <;> simp
  have hsp : ∀ a j, Spelling.named (tag a) j → (∃ s, j = .str s) ∨ ∃ s k, j = .obj [(s, k)] := by
    intro a j hj
    exact hj.imp (fun hj => ⟨_, hj⟩) fun hj => ⟨_, _, hj⟩
  intro d
  cases d with
  | zero => exact reads_tagged_zero hbare hsp
  | succ d =>
    refine reads_tagged_succ hbare hsp fun s k a _ => ?_
    rw [Spelling.named_obj]
    cases k <;> simp [hbare, Spelling.named]

end

/-! ## Fields -/

namespace Field

@[simp] theorem ok_inj {a b : α} : @Eq (Field α) (.ok a) (.ok b) ↔ a = b :=
  ⟨Except.ok.inj, congrArg _⟩

@[simp] theorem map_eq_ok {f : α → β} {x : Field α} {b : β} : f <$> x = .ok b ↔ ∃ a, x = .ok a ∧ f a = b := by
  cases x <;> simp [Functor.map, apply]

@[simp] theorem seq_eq_ok {f : Field (α → β)} {x : Field α} {b : β} :
    f <*> x = .ok b ↔ ∃ g, f = .ok g ∧ ∃ a, x = .ok a ∧ g a = b := by
  cases f <;> cases x <;> simp [Seq.seq, apply]

theorem ofMember_eq_ok {i : Nat} {x : Decoded α} {a : α} : ofMember i x = .ok a ↔ x = .ok a := by
  cases x <;> simp [ofMember]

end Field

namespace Record

/-- The member that is read for a field. -/
def find? (r : Record) (name : String) : Option Json :=
  (locate name r.members).map Prod.snd

/-- The members nest no deeper than `d`. -/
def Within (r : Record) (d : Nat) : Prop :=
  ∀ name j, (name, j) ∈ r.members → j.depth ≤ d

end Record

/-- The field as it stands in a record. -/
def FieldSpelling.HeldBy (f : FieldSpelling) (r : Record) : Prop :=
  match r.find? f.name with
  | some j => f.value j
  | none => if r.positional then f.mayEnd else f.mayMiss

namespace Record

theorem mem_of_locate {name : String} {j : Json} : ∀ {ms : List (String × Json)} {i : Nat},
    locate name ms = some (i, j) → (name, j) ∈ ms
  | [], _, h => by simp [locate] at h
  | (key, k) :: ms, i, h => by
    unfold locate at h
    split at h
    · rename_i hk
      simp_all
    · obtain ⟨⟨n, l⟩, hl, he⟩ := Option.map_eq_some_iff.mp h
      cases he
      exact List.mem_cons_of_mem _ (mem_of_locate hl)

variable {r : Record} {d : Nat} {name : String} {read : Json → Decoded α} {sp : α → Spelling}

theorem ofMember_iff (h : Reads read sp d) (hr : r.Within d) {m : Nat × Json} {a : α}
    (hl : locate name r.members = some m) : Field.ofMember m.1 (read m.2) = .ok a ↔ sp a m.2 := by
  rw [Field.ofMember_eq_ok]
  exact h m.2 a (hr name m.2 (mem_of_locate hl))

theorem required_iff (h : Reads read sp d) (hr : r.Within d) {a : α} :
    r.required name read = .ok a ↔ (FieldSpelling.required name (sp a)).HeldBy r := by
  unfold required FieldSpelling.HeldBy find?
  cases hl : locate name r.members with
  | none => simp [hl, FieldSpelling.required, missing]
  | some m => simp [hl, FieldSpelling.required, ofMember_iff h hr hl]

theorem defaulted_iff (h : Reads read sp d) (hr : r.Within d) {a default : α} :
    r.defaulted name default read = .ok a ↔ (FieldSpelling.defaulted name (sp a) (a = default)).HeldBy r := by
  unfold defaulted FieldSpelling.HeldBy find?
  cases hl : locate name r.members with
  | none => simp [hl, FieldSpelling.defaulted, @eq_comm _ default]
  | some m => simp [hl, FieldSpelling.defaulted, ofMember_iff h hr hl]

theorem optional_iff (h : Reads read sp d) (hnull : ∀ a, ¬ sp a .null) (hr : r.Within d) {o : Option α} :
    r.optional name read = .ok o ↔
      (FieldSpelling.optional name (Spelling.nullable sp o) (o = none)).HeldBy r := by
  unfold optional FieldSpelling.HeldBy find?
  cases hl : locate name r.members with
  | none => cases hp : r.positional <;> simp [hl, FieldSpelling.optional, missing, @eq_comm _ none]
  | some m => simp [hl, FieldSpelling.optional, ofMember_iff (h.nullable hnull) hr hl]

theorem finish_eq_ok {x : Field α} {a : α} : r.finish x = .ok a ↔ r.excess = none ∧ x = .ok a := by
  cases x <;> cases hx : r.excess <;> simp [finish, hx]

end Record

/-! ## Records -/

theorem Json.record_eq_ok {names : List String} {build : Record → Field α} {j : Json} {a : α} :
    j.record names build = .ok a ↔
      ∃ r, Record.ofJson? names j = some r ∧ r.excess = none ∧ build r = .ok a := by
  unfold Json.record
  cases Record.ofJson? names j <;> simp [Record.finish_eq_ok]

namespace Record

theorem within_of_ofJson? {names : List String} {j : Json} {r : Record} {d : Nat}
    (h : ofJson? names j = some r) (hj : j.depth ≤ d + 1) : r.Within d := by
  intro name k hk
  cases j with
  | obj ms =>
    cases h
    have hlt : k.depth < (Json.obj ms).depth := Json.depth_lt_of_mem_members hk
    omega
  | arr js =>
    cases h
    have hlt : k.depth < (Json.arr js).depth := Json.depth_lt_of_mem_items (List.of_mem_zip hk).2
    omega
  | _ => cases h

/-- No name of `names` is repeated, where those in `seen` have been met before. -/
theorem firstRepeat_eq_none {names : List String} : ∀ {ms : List (String × Json)} {seen : List String},
    firstRepeat names seen ms = none ↔
      ∀ x ∈ names, (ms.map Prod.fst).count x + (if x ∈ seen then 1 else 0) ≤ 1
  | [], seen => by
    simp only [firstRepeat, List.map_nil, List.count_nil, true_iff]
    intro x _
    split <;> omega
  | (key, j) :: ms, seen => by
    unfold firstRepeat
    split
    · rename_i hkey
      simp only [reduceCtorEq, false_iff]
      intro h
      have := h key hkey.1
      simp [hkey.2] at this
    · rename_i hkey
      rw [Option.map_eq_none_iff, firstRepeat_eq_none]
      refine forall₂_congr fun x hx => ?_
      by_cases hk : key = x
      · subst hk
        have hs : key ∉ seen := fun hs => hkey ⟨hx, hs⟩
        simp [hs]
      · simp [hk, Ne.symm hk]

theorem locate_of_mem {name : String} {j : Json} : ∀ {ms : List (String × Json)},
    (ms.map Prod.fst).count name ≤ 1 → (name, j) ∈ ms → ∃ i, locate name ms = some (i, j)
  | (key, k) :: ms, hcount, h => by
    unfold locate
    by_cases hk : key = name
    · subst hk
      have hrest : key ∉ ms.map Prod.fst := by
        rw [← List.count_eq_zero]
        simp only [List.map_cons, List.count_cons_self] at hcount
        omega
      rcases List.mem_cons.mp h with he | h
      · cases he
        exact ⟨0, if_pos rfl⟩
      · exact absurd (List.mem_map_of_mem h) hrest
    · have hmem : (name, j) ∈ ms := (List.mem_cons.mp h).resolve_left fun he => hk (by cases he; rfl)
      rw [List.map_cons, List.count_cons_of_ne hk] at hcount
      obtain ⟨i, hi⟩ := locate_of_mem hcount hmem
      exact ⟨i + 1, by simp [hk, hi]⟩

end Record

namespace FieldSpelling

theorem among_iff_heldBy {f : FieldSpelling} {ms : List (String × Json)} {k : Option Nat}
    (hcount : (ms.map Prod.fst).count f.name ≤ 1) : f.Among ms ↔ f.HeldBy ⟨ms, false, k⟩ := by
  unfold Among HeldBy Record.find?
  cases hl : Record.locate f.name ms with
  | none =>
    have hnone : ∀ j, (f.name, j) ∉ ms := by
      intro j hj
      obtain ⟨i, hi⟩ := Record.locate_of_mem hcount hj
      simp [hl] at hi
    simp [hnone]
  | some m =>
    obtain ⟨i, j⟩ := m
    have hj : (f.name, j) ∈ ms := Record.mem_of_locate hl
    constructor
    · rintro (⟨j', hj', hv⟩ | ⟨hnone, -⟩)
      · obtain ⟨i', hi'⟩ := Record.locate_of_mem hcount hj'
        cases hl.symm.trans hi'
        exact hv
      · exact absurd hj (hnone j)
    · intro hv
      exact .inl ⟨j, hj, hv⟩

theorem heldBy_cons_self {f : FieldSpelling} {j : Json} {ms : List (String × Json)} {k : Option Nat} :
    f.HeldBy ⟨(f.name, j) :: ms, true, k⟩ ↔ f.value j := by
  simp [HeldBy, Record.find?, Record.locate]

theorem heldBy_cons_of_ne {f : FieldSpelling} {name : String} {j : Json} {ms : List (String × Json)}
    {k : Option Nat} (h : name ≠ f.name) :
    f.HeldBy ⟨(name, j) :: ms, true, k⟩ ↔ f.HeldBy ⟨ms, true, k⟩ := by
  unfold HeldBy Record.find?
  cases hl : Record.locate f.name ms <;> simp [Record.locate, h, hl]

/-- An item is read for the field at its place, as the names of the fields differ. -/
theorem inOrder_iff_heldBy {k : Option Nat} : ∀ {fs : List FieldSpelling} {js : List Json},
    (fs.map FieldSpelling.name).Nodup →
      (InOrder fs js ↔ js.length ≤ fs.length ∧ ∀ f ∈ fs, f.HeldBy ⟨(fs.map FieldSpelling.name).zip js, true, k⟩)
  | [], js, _ => by simp [InOrder]
  | f :: fs, [], hfs => by
    have ih := @inOrder_iff_heldBy k fs [] (List.nodup_cons.mp hfs).2
    simp only [List.zip_nil_right, List.length_nil, Nat.zero_le, true_and] at ih ⊢
    rw [InOrder, ih, List.forall_mem_cons]
    exact and_congr_left fun _ => by simp [HeldBy, Record.find?, Record.locate]
  | f :: fs, j :: js, hfs => by
    obtain ⟨hf, hfs⟩ := List.nodup_cons.mp hfs
    have hrest : ∀ g ∈ fs, g.HeldBy ⟨(f.name, j) :: (fs.map FieldSpelling.name).zip js, true, k⟩ ↔
        g.HeldBy ⟨(fs.map FieldSpelling.name).zip js, true, k⟩ := by
      intro g hg
      exact heldBy_cons_of_ne fun he => hf (he ▸ List.mem_map_of_mem hg)
    rw [InOrder, inOrder_iff_heldBy (k := k) hfs, List.map_cons, List.zip_cons_cons, List.forall_mem_cons,
      heldBy_cons_self, forall₂_congr hrest, List.length_cons, List.length_cons, Nat.add_le_add_iff_right]
    exact and_left_comm

end FieldSpelling

/-- A value spells a record if it can be taken apart as one with no field or item too
much, and has each field as it should be. -/
theorem Spelling.record_iff {names : List String} {fs : List FieldSpelling}
    (hnames : fs.map FieldSpelling.name = names) (hnodup : names.Nodup) {j : Json} :
    record fs j ↔ ∃ r, Record.ofJson? names j = some r ∧ r.excess = none ∧ ∀ f ∈ fs, f.HeldBy r := by
  subst hnames
  cases j with
  | obj ms =>
    simp only [record, Record.ofJson?, Option.some.injEq, exists_eq_left', Record.firstRepeat_eq_none]
    constructor
    · intro h
      refine ⟨?_, fun f hf => (FieldSpelling.among_iff_heldBy (h f hf).1).mp (h f hf).2⟩
      intro x hx
      obtain ⟨f, hf, rfl⟩ := List.mem_map.mp hx
      simpa using (h f hf).1
    · intro h f hf
      obtain ⟨hcount, hheld⟩ := h
      have hf1 : (ms.map Prod.fst).count f.name ≤ 1 := by
        simpa using hcount f.name (List.mem_map_of_mem hf)
      exact ⟨hf1, (FieldSpelling.among_iff_heldBy hf1).mpr (hheld f hf)⟩
  | arr js =>
    simp only [record, Record.ofJson?, Option.some.injEq, exists_eq_left']
    rw [FieldSpelling.inOrder_iff_heldBy hnodup, List.length_map]
    refine and_congr_left fun _ => ?_
    split <;> simp <;> omega
  | _ => simp [record, Record.ofJson?]

section

variable {names : List String} {d : Nat}

theorem record_ok_iff {build : Record → Field α} {a : α} {fs : List FieldSpelling} {j : Json}
    (hnames : fs.map FieldSpelling.name = names) (hnodup : names.Nodup)
    (hbuild : ∀ r, r.Within d → (build r = .ok a ↔ ∀ f ∈ fs, f.HeldBy r)) (hj : j.depth ≤ d + 1) :
    j.record names build = .ok a ↔ Spelling.record fs j := by
  rw [Json.record_eq_ok, Spelling.record_iff hnames hnodup]
  refine exists_congr fun r => and_congr_right fun hr => and_congr_right fun _ => ?_
  exact hbuild r (Record.within_of_ofJson? hr hj)

section

-- A record that is made into something else, `b` into `make b`.
variable {sp : α → Spelling} {make : β → α} {fs : β → List FieldSpelling}
  (hsp : ∀ a j, sp a j ↔ ∃ b, Spelling.record (fs b) j ∧ make b = a)
include hsp

theorem reads_payload_zero {read : Json → Decoded α} (hread : ∀ j, read j = .error .form) : Reads read sp 0 := by
  refine reads_zero hread fun a j h => ?_
  obtain ⟨b, hb, -⟩ := (hsp a j).mp h
  exact Spelling.depth_pos_of_record hb

theorem reads_payload {build : Record → Field α}
    (hnames : ∀ b, (fs b).map FieldSpelling.name = names) (hnodup : names.Nodup)
    (hbuild : ∀ r a, r.Within d → (build r = .ok a ↔ ∃ b, (∀ f ∈ fs b, f.HeldBy r) ∧ make b = a)) :
    Reads (Json.record names build) sp (d + 1) := by
  intro j a hj
  have hiff := fun b => Spelling.record_iff (j := j) (hnames b) hnodup
  simp only [Json.record_eq_ok, hsp, hiff]
  constructor
  · intro h
    obtain ⟨r, hr, hx, h⟩ := h
    obtain ⟨b, hb, he⟩ := (hbuild r a (Record.within_of_ofJson? hr hj)).mp h
    exact ⟨b, ⟨r, hr, hx, hb⟩, he⟩
  · intro h
    obtain ⟨b, ⟨r, hr, hx, hb⟩, he⟩ := h
    exact ⟨r, hr, hx, (hbuild r a (Record.within_of_ofJson? hr hj)).mpr ⟨b, hb, he⟩⟩

end

end

end Dana
