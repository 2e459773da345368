import Mathlib.Data.List.Forall2
import Dana.Proofs.ByteOrder
import Dana.Proofs.WellFormed

/-!
# The order of declarations

Declarations that succeed one after the other succeed in any order and leave the same
table (`Declaration.yields_perm`). A scope keeps its entries sorted, so nothing shows which
of them came first, and a dump has them by the bytes of their names.
-/

namespace Dana

open Check

/-! ## Scopes -/

namespace Scope

variable {s : Scope} {e f : Entry}

theorem insertEntry_comm (h : e.name ≠ f.name) (es : List Entry) :
    insertEntry e (insertEntry f es) = insertEntry f (insertEntry e es) := by
  have hcases : e.name < f.name ∨ f.name < e.name := by
    by_cases hlt : e.name < f.name
    · exact .inl hlt
    · exact .inr (Std.lt_of_le_of_ne (String.not_lt.mp hlt) h.symm)
  induction es with
  | nil => rcases hcases with hlt | hlt <;> simp [insertEntry, hlt, String.lt_asymm hlt]
  | cons g es ih =>
    by_cases he : e.name < g.name <;> by_cases hf : f.name < g.name
    · rcases hcases with hlt | hlt <;> simp [insertEntry, he, hf, hlt, String.lt_asymm hlt]
    · have hfe : ¬ f.name < e.name := fun hlt => hf (String.lt_trans hlt he)
      simp [insertEntry, he, hf, hfe]
    · have hef : ¬ e.name < f.name := fun hlt => he (String.lt_trans hlt hf)
      simp [insertEntry, he, hf, hef]
    · simp [insertEntry, he, hf, ih]

theorem insert_comm (h : e.name ≠ f.name) : (s.insert e).insert f = (s.insert f).insert e := by
  simp only [insert, insertEntry_comm h]

theorem find?_insert_eq_none (hs : s.find? e.name = none) :
    (s.insert e).find? f.name = none ↔ e.name ≠ f.name ∧ s.find? f.name = none := by
  rw [find?_insert hs]
  by_cases hn : e.name = f.name <;> simp [hn]

def Sorted (s : Scope) : Prop :=
  s.entries.Pairwise fun e f => e.name < f.name

theorem insertEntry_sorted : ∀ {es : List Entry}, es.Pairwise (fun e f => e.name < f.name) →
    (∀ f ∈ es, f.name ≠ e.name) → (insertEntry e es).Pairwise fun e f => e.name < f.name
  | [], _, _ => by simp [insertEntry]
  | g :: es, h, hn => by
    obtain ⟨hg, hes⟩ := List.pairwise_cons.mp h
    simp only [insertEntry]
    split
    · rename_i hlt
      refine List.pairwise_cons.mpr ⟨fun f hf => ?_, h⟩
      rcases List.mem_cons.mp hf with rfl | hf
      · exact hlt
      · exact String.lt_trans hlt (hg f hf)
    · rename_i hle
      have hlt : g.name < e.name := Std.lt_of_le_of_ne (String.not_lt.mp hle) (hn g (by simp))
      have ih := insertEntry_sorted hes fun f hf => hn f (by simp [hf])
      refine List.pairwise_cons.mpr ⟨fun f hf => ?_, ih⟩
      rcases List.mem_cons.mp ((insertEntry_perm e es).mem_iff.mp hf) with rfl | hf
      · exact hlt
      · exact hg f hf

theorem Sorted.insert (h : s.Sorted) (hn : s.find? e.name = none) : (s.insert e).Sorted :=
  insertEntry_sorted h (find?_eq_none.mp hn)

end Scope

/-! ## One declaration after another -/

/-- `u` is `t` with the entry `e`, whose name is new there, in the scope at place `i`. The
innermost scope is at place 0. -/
def Table.EntersAt (t : Table) (i : Nat) (e : Entry) (u : Table) : Prop :=
  ∃ s, t.scopes[i]? = some s ∧ s.find? e.name = none ∧ u = { t with scopes := t.scopes.set i (s.insert e) }

namespace Table

variable {t u v : Table} {e f : Entry} {i j : Nat}

theorem declare_iff_entersAt : t.declare e = .ok u ↔ t.EntersAt 0 e u := by
  rw [declare_ok]
  unfold EntersAt
  cases hs : t.scopes with
  | nil => simp
  | cons s outer => simp

theorem declareGlobal_iff_entersAt : t.declareGlobal e = .ok u ↔ t.EntersAt (t.depth - 1) e u := by
  rw [declareGlobal_ok]
  unfold EntersAt depth
  rcases List.eq_nil_or_concat t.scopes with hs | ⟨inner, g, hs⟩
  · simp [hs]
  · rw [List.concat_eq_append] at hs
    simp [hs]

theorem EntersAt.depth (h : t.EntersAt i e u) : u.depth = t.depth := by
  obtain ⟨s, -, -, rfl⟩ := h
  simp [Table.depth]

theorem EntersAt.comm (h : t.EntersAt i e u) (h' : u.EntersAt j f v) :
    ∃ w, t.EntersAt j f w ∧ w.EntersAt i e v := by
  obtain ⟨s, hs, he, rfl⟩ := h
  obtain ⟨s', hs', hf, rfl⟩ := h'
  by_cases hij : i = j
  · -- one scope takes both: the names differ, as the second was still free
    subst hij
    have hi : i < t.scopes.length := (List.getElem?_eq_some_iff.mp hs).1
    simp only [List.getElem?_set_self hi, Option.some.injEq] at hs'
    subst hs'
    obtain ⟨hne, hf⟩ := (Scope.find?_insert_eq_none he).mp hf
    have he' : (s.insert f).find? e.name = none := (Scope.find?_insert_eq_none hf).mpr ⟨hne.symm, he⟩
    refine ⟨_, ⟨s, hs, hf, rfl⟩, s.insert f, List.getElem?_set_self hi, he', ?_⟩
    simp [Scope.insert_comm hne]
  · simp only [List.getElem?_set_ne hij] at hs'
    refine ⟨_, ⟨s', hs', hf, rfl⟩, s, ?_, he, ?_⟩
    · simp only [List.getElem?_set_ne (Ne.symm hij), hs]
    · simp only [List.set_comm _ _ hij]

end Table

/-- A declaration by itself: a binding in the innermost scope, or a function. -/
inductive Declaration
  | bind (role : Role) (name : String) (ty : Ty) (line : Line)
  | register (h : Header)

namespace Declaration

def operation : Declaration → Operation
  | .bind role name ty line => .bind role name ty line
  | .register h => .register h

/-- One after the other, up to the first that is refused. -/
def enterAll (ds : List Declaration) : Check Unit :=
  ds.forM fun d => d.operation.action

/-- Where the entry goes in a table of that depth. -/
def place (depth : Nat) : Declaration → Nat
  | .bind .. => 0
  | .register _ => depth - 1

def entry : Declaration → Entry
  | .bind role name ty line => .ofBinding role name ty line
  | .register h => .ofHeader h

def Named : Declaration → Prop
  | .bind .. => True
  | .register h => h.name ≠ ""

variable {t u v : Table} {d d' : Declaration} {ds ds' : List Declaration}

theorem yields_iff : d.operation.action.Yields t () u ↔ d.Named ∧ t.EntersAt (d.place t.depth) d.entry u := by
  cases d with
  | bind role name ty line =>
    simp only [operation, Operation.action, bindName, yields_change, Table.declare_iff_entersAt]
    simp [Named, place, entry]
  | register h =>
    simp only [operation, Operation.action, yields_register, Table.declareGlobal_iff_entersAt]
    rfl

theorem yields_swap (h : d.operation.action.Yields t () u) (h' : d'.operation.action.Yields u () v) :
    ∃ w, d'.operation.action.Yields t () w ∧ d.operation.action.Yields w () v := by
  obtain ⟨hn, h⟩ := yields_iff.mp h
  obtain ⟨hn', h'⟩ := yields_iff.mp h'
  -- the places are those of `t` all along, for the depth stays
  rw [h.depth] at h'
  obtain ⟨w, hw, hv⟩ := h.comm h'
  refine ⟨w, yields_iff.mpr ⟨hn', hw⟩, yields_iff.mpr ⟨hn, ?_⟩⟩
  rw [hw.depth]
  exact hv

theorem yields_enterAll_cons : (enterAll (d :: ds)).Yields t () v ↔
    ∃ u, d.operation.action.Yields t () u ∧ (enterAll ds).Yields u () v := by
  show (d.operation.action >>= fun _ => enterAll ds).Yields t () v ↔ _
  rw [yields_bind]
  constructor
  · rintro ⟨_, u, hd, h⟩
    exact ⟨u, hd, h⟩
  · rintro ⟨u, hd, h⟩
    exact ⟨(), u, hd, h⟩

theorem yields_perm (hp : ds.Perm ds') : (enterAll ds).Yields t () u → (enterAll ds').Yields t () u := by
  induction hp generalizing t with
  | nil => exact id
  | cons d _ ih =>
    intro h
    obtain ⟨v, hv, h⟩ := yields_enterAll_cons.mp h
    exact yields_enterAll_cons.mpr ⟨v, hv, ih h⟩
  | swap d d' ds =>
    intro h
    obtain ⟨v, hv, h⟩ := yields_enterAll_cons.mp h
    obtain ⟨w, hw, h⟩ := yields_enterAll_cons.mp h
    obtain ⟨v', hv', hw'⟩ := yields_swap hv hw
    exact yields_enterAll_cons.mpr ⟨v', hv', yields_enterAll_cons.mpr ⟨w, hw', h⟩⟩
  | trans _ _ ih ih' => exact fun h => ih' (ih h)

end Declaration

/-! ## Dumps -/

/-- `es` are the entries of the scope, each of them once, by the bytes of their names. -/
structure Scope.Lists (s : Scope) (es : List Entry) : Prop where
  once : ∀ e, es.count e = if s.find? e.name = some e then 1 else 0
  increasing : es.Pairwise fun e f => e.name.toUTF8.data.toList < f.name.toUTF8.data.toList

def Entry.lines (es : List Entry) : String :=
  String.join (es.map fun e => e.text ++ "\n")

/-- The dumps of `t` have these rows of entries, one row for each scope, innermost first. -/
structure Table.Dumps (t : Table) (rows : List (List Entry)) : Prop where
  scopes : List.Forall₂ Scope.Lists t.scopes rows
  innermost : t.innermostText =
    rows.head?.elim "<no active scope>\n" fun es => "---- Current Scope ----\n" ++ Entry.lines es
  whole : t.text = "==== Symbol Table ====\n" ++
    String.join (rows.reverse.mapIdx fun i es => "Scope " ++ i.repr ++ ":\n" ++ Entry.lines es) ++
    "======================\n"

theorem Scope.Sorted.lists {s : Scope} (h : s.Sorted) (hs : s.WellFormed) : s.Lists s.entries where
  once e := by
    have hnodup : s.entries.Nodup := h.imp fun hlt heq => String.ne_of_lt hlt (congrArg Entry.name heq)
    rw [hnodup.count]
    simp [hs.found]
  increasing := h.imp utf8_lt

theorem Table.levelsText_eq (i : Nat) (ss : List Scope) : levelsText i ss =
    String.join ((ss.map Scope.entries).mapIdx fun k es => "Scope " ++ (i + k).repr ++ ":\n" ++ Entry.lines es) := by
  induction ss generalizing i with
  | nil => rfl
  | cons s ss ih =>
    rw [levelsText, ih (i + 1), List.map_cons, List.mapIdx_cons, String.join_cons, Nat.add_zero]
    have hshift : ∀ k, i + 1 + k = i + (k + 1) := by omega
    simp only [hshift]
    rfl

theorem Table.Reachable.dumps {t : Table} (h : t.Reachable) : t.Dumps (t.scopes.map Scope.entries) where
  scopes := by
    have hsorted := h.forall_scopes (P := Scope.Sorted) List.Pairwise.nil fun s e _ hn hs => hs.insert hn
    rw [List.forall₂_map_right_iff, List.forall₂_same]
    exact fun s hs => (hsorted s hs).lists (h.wellFormed.scopes s hs)
  innermost := by
    unfold innermostText
    cases t.scopes <;> rfl
  whole := by
    unfold Table.text
    rw [levelsText_eq, List.map_reverse]
    simp only [Nat.zero_add]

/-! ## Main result -/

/-- `t` and `u` give the same answers and the same texts. -/
structure Table.LooksAs (t u : Table) : Prop where
  find? : ∀ x, t.find? x = u.find? x
  findInnermost? : ∀ x, t.findInnermost? x = u.findInnermost? x
  function? : ∀ x, t.function? x = u.function? x
  innermostText : t.innermostText = u.innermostText
  text : t.text = u.text

/-- **The order of declarations does not show.** If they all succeed, then they do in any
order, and the table looks the same. A table's dumps list each entry of a scope once, by the
bytes of the names. -/
theorem declarations_commute {t : Table} (h : t.Reachable) :
    (∀ ds ds' : List Declaration, ds.Perm ds' → ((Declaration.enterAll ds).run t).result = .ok () →
      ((Declaration.enterAll ds').run t).result = .ok () ∧
      ((Declaration.enterAll ds').run t).table.LooksAs ((Declaration.enterAll ds).run t).table) ∧
    ∃ rows, t.Dumps rows := by
  refine ⟨fun ds ds' hp hok => ?_, _, h.dumps⟩
  obtain ⟨hok', htable⟩ := Declaration.yields_perm hp ⟨hok, rfl⟩
  refine ⟨hok', ?_⟩
  rw [htable]
  exact ⟨fun _ => rfl, fun _ => rfl, fun _ => rfl, rfl, rfl⟩

/-- A binding and a function of one name, and two names of which one has the higher code
points and the other the higher UTF-16 units. -/
def mixedDeclarations : List Declaration :=
  [.bind .plain "𝒛" .int 2, .register (.make "f" none [] 3), .bind .param "ｚ" .byte 4,
    .bind .plain "f" .int 5]

theorem declarations_commute_mixed :
    let t := (Operation.openScope.action.run .empty).table
    let u := ((Declaration.enterAll mixedDeclarations).run t).table
    t.Reachable ∧ ((Declaration.enterAll mixedDeclarations).run t).result = .ok () ∧
    ((Declaration.enterAll mixedDeclarations.reverse).run t).result = .ok () ∧
    ((Declaration.enterAll mixedDeclarations.reverse).run t).table.LooksAs u ∧
    (∃ rows, u.Dumps rows) ∧
    u.innermostText =
      "---- Current Scope ----\n[Var] f : int\n[Param] ｚ : byte\n[Var] 𝒛 : int\n" := by
  intro t u
  have hr : t.Reachable := .after .openScope .empty
  have hu : u.Reachable := hr.afterAll (mixedDeclarations.map Declaration.operation)
  have hok : ((Declaration.enterAll mixedDeclarations).run t).result = .ok () := by decide
  obtain ⟨hok', hlooks⟩ := (declarations_commute hr).1 _ _ (List.reverse_perm _).symm hok
  exact ⟨hr, hok, hok', hlooks, (declarations_commute hu).2, by decide⟩

end Dana
