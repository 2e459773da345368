import Dana.Proofs.State
import Dana.Proofs.WellFormed

/-!
# Replaying a journal

A journal tells how many scopes and loops are open and which functions the
global scope has, not what is bound. `Outline` is this part of a table, and
`Outline.replay?` works it out from the records alone. `Table.Replays` follows
whole tables: every change that is not a binding leaves its record, so what one
change does to the outline, the depths and the global scope holds of a journal.
-/

namespace Dana

/-! ## What the records tell -/

inductive Block
  | scope
  | loop
deriving DecidableEq, Repr

inductive Mark
  | opened (b : Block)
  | closed (b : Block)
deriving DecidableEq, Repr

namespace Event

def mark? : Event → Option Mark
  | .scopeOpened _ => some (.opened .scope)
  | .scopeClosed _ => some (.closed .scope)
  | .loopOpened _ => some (.opened .loop)
  | .loopClosed _ => some (.closed .loop)
  | .checkingProgram _ | .programPassed | .registered _ | .checkingFunction _ | .labelledLoop _ _ => none

def registered? : Event → Option Header
  | .registered h => some h
  | _ => none

end Event

structure Outline where
  depth : Nat
  loopDepth : Nat
  /-- The functions of the global scope, by name. -/
  functions : String → Option Header

def Table.outline (t : Table) : Outline :=
  ⟨t.depth, t.loopDepth, fun x => (t.findAt? 0 x).bind Entry.header?⟩

namespace Outline

/-- The outline after a record. A record that does not fit has none: its depth is
not the next one, or the function is there already. -/
def next? (s : Outline) : Event → Option Outline
  | .scopeOpened d => if d = s.depth + 1 then some { s with depth := d } else none
  | .scopeClosed d => if d + 1 = s.depth then some { s with depth := d } else none
  | .loopOpened d => if d = s.loopDepth + 1 then some { s with loopDepth := d } else none
  | .loopClosed d => if d + 1 = s.loopDepth then some { s with loopDepth := d } else none
  | .registered h =>
    if (s.functions h.name).isSome then none
    else some { s with functions := fun x => if h.name = x then some h else s.functions x }
  | .checkingProgram _ | .programPassed | .checkingFunction _ | .labelledLoop _ _ => some s

def replay? (s : Outline) : List Event → Option Outline
  | [] => some s
  | e :: es => (s.next? e).bind fun s' => s'.replay? es

theorem replay?_singleton (s : Outline) (e : Event) : s.replay? [e] = s.next? e := by
  simp [replay?]

theorem replay?_append {es' : List Event} : ∀ {es : List Event} {s : Outline},
    s.replay? (es ++ es') = (s.replay? es).bind fun s' => s'.replay? es'
  | [], _ => rfl
  | e :: es, s => by
    simp only [List.cons_append, replay?, Option.bind_assoc]
    congr 1
    funext s'
    exact replay?_append

end Outline

/-! ## Changes and their records -/

namespace Table

/-- One change of a table with what it writes. The global scope is not closed, and
neither is a loop when none is open. -/
inductive Logged : Table → List Event → Table → Prop
  | openScope {t} : Logged t [.scopeOpened t.openScope.depth] t.openScope
  | closeScope {t u} : 1 < t.depth → t.closeScope = .ok u → Logged t [.scopeClosed u.depth] u
  | openLoop {t} : Logged t [.loopOpened t.openLoop.loopDepth] t.openLoop
  | closeLoop {t} : 0 < t.loopDepth → Logged t [.loopClosed t.closeLoop.loopDepth] t.closeLoop
  | bind {t u role name ty line} : t.declare (.ofBinding role name ty line) = .ok u → Logged t [] u
  | register {t u h} : h.name ≠ "" → t.declareGlobal (.ofHeader h) = .ok u → Logged t [.registered h] u
  | function {t h} : Logged t [.checkingFunction h] t
  | label {t l line} : Logged t [.labelledLoop l line] t

/-- The records lead from one table to the other, change by change. -/
inductive Replays : Table → List Event → Table → Prop
  | done {t} : Replays t [] t
  | step {t u v es fs} : t.Logged es u → u.Replays fs v → Replays t (es ++ fs) v

variable {t u v : Table} {es fs : List Event}

theorem Logged.replays (h : t.Logged es u) : t.Replays es u := by
  have hstep := Replays.step h .done
  rwa [List.append_nil] at hstep

theorem Replays.trans (h : t.Replays es u) (h' : u.Replays fs v) : t.Replays (es ++ fs) v := by
  induction h with
  | done => exact h'
  | step hs _ ih =>
    rw [List.append_assoc]
    exact .step hs (ih h')

/-! ## Rooted tables -/

/-- There is a global scope, and no other one has functions. -/
structure Rooted (t : Table) : Prop where
  depth_pos : 0 < t.depth
  functionsGlobal : t.FunctionsGlobal

theorem Logged.rooted (h : t.Logged es u) (ht : t.Rooted) : u.Rooted := by
  have hpos := ht.depth_pos
  cases h with
  | openScope => exact ⟨Nat.succ_pos _, Step.openScope.functionsGlobal ht.functionsGlobal⟩
  | closeScope hd h =>
    have hdepth := (closeScope_depth h).1
    exact ⟨by omega, (Step.closeScope h).functionsGlobal ht.functionsGlobal⟩
  | openLoop => exact ⟨hpos, Step.openLoop.functionsGlobal ht.functionsGlobal⟩
  | closeLoop => exact ⟨hpos, Step.closeLoop.functionsGlobal ht.functionsGlobal⟩
  | bind h => exact ⟨(declare_depth h).1 ▸ hpos, (Step.bind h).functionsGlobal ht.functionsGlobal⟩
  | register hn h =>
    exact ⟨(declareGlobal_depth h).1 ▸ hpos, (Step.register hn h).functionsGlobal ht.functionsGlobal⟩
  | function | label => exact ht

theorem Replays.rooted (h : t.Replays es u) (ht : t.Rooted) : u.Rooted := by
  induction h with
  | done => exact ht
  | step hs _ ih => exact ih (hs.rooted ht)

/-! ## Depths -/

/-- What is open afterwards and what the marks close come to what was open before
and what they open. -/
structure Balance (t : Table) (marks : List Mark) (u : Table) : Prop where
  scopes : u.depth + marks.count (.closed .scope) = t.depth + marks.count (.opened .scope)
  loops : u.loopDepth + marks.count (.closed .loop) = t.loopDepth + marks.count (.opened .loop)

theorem Logged.balance (h : t.Logged es u) : t.Balance (es.filterMap Event.mark?) u := by
  cases h with
  | openScope | openLoop | function | label => exact ⟨rfl, rfl⟩
  | closeScope _ h =>
    obtain ⟨hd, hl⟩ := closeScope_depth h
    exact ⟨hd.symm, hl⟩
  | closeLoop h => exact ⟨rfl, Nat.sub_add_cancel h⟩
  | bind h => exact ⟨(declare_depth h).1, (declare_depth h).2⟩
  | register _ h => exact ⟨(declareGlobal_depth h).1, (declareGlobal_depth h).2⟩

theorem Replays.balance (h : t.Replays es u) : t.Balance (es.filterMap Event.mark?) u := by
  induction h with
  | done => exact ⟨rfl, rfl⟩
  | step hs _ ih =>
    obtain ⟨hscopes, hloops⟩ := hs.balance
    obtain ⟨hscopes', hloops'⟩ := ih
    rw [List.filterMap_append]
    refine ⟨?_, ?_⟩
    · simp only [List.count_append]
      omega
    · simp only [List.count_append]
      omega

/-! ## The global scope -/

/-- The global scope has got these functions, and besides them only bindings. -/
def Acquires (t : Table) (hs : List Header) (u : Table) : Prop :=
  ∃ vs, (∀ e ∈ vs, e.header? = none) ∧ t.GainsAt 0 (vs ++ hs.map Entry.ofHeader) u

theorem Acquires.refl (ht : 0 < t.depth) (hu : u.level? 0 = t.level? 0) : t.Acquires [] u := by
  obtain ⟨g, hg⟩ : ∃ g, t.level? 0 = some g := by
    rw [level?_zero]
    exact ⟨_, List.getLast?_eq_some_getLast (List.ne_nil_of_length_pos ht)⟩
  exact ⟨[], by simp, g, g, hg, hu.trans hg, .refl g⟩

theorem Acquires.trans {hs hs' : List Header} (h : t.Acquires hs u) (h' : u.Acquires hs' v) :
    t.Acquires (hs ++ hs') v := by
  obtain ⟨vs, hvs, hg⟩ := h
  obtain ⟨vs', hvs', hg'⟩ := h'
  refine ⟨vs ++ vs', List.forall_mem_append.mpr ⟨hvs, hvs'⟩, ?_⟩
  obtain ⟨s, s', hs, hs', hg⟩ := hg.trans hg'
  refine ⟨s, s', hs, hs', hg.reorder ?_⟩
  rw [List.map_append, List.append_assoc, List.append_assoc]
  exact (List.perm_append_comm_assoc _ vs' _).append_left vs

theorem acquires_of_grows {vs : List Entry} {hs : List Header} (ht : 0 < t.depth)
    (h : Grows t.scopes vs hs u.scopes) : t.Acquires hs u := by
  have hgrown : t.Grown vs hs u := grown_of_grows h (List.nil_append _).symm
  by_cases hd : t.depth = 1
  · exact ⟨vs, h.bindings, hgrown.sole hd⟩
  · exact ⟨[], by simp, (hgrown.ends (by omega)).2⟩

theorem Logged.acquires (h : t.Logged es u) (ht : 0 < t.depth) : t.Acquires (es.filterMap Event.registered?) u := by
  cases h with
  | openScope =>
    have hlevel : t.openScope.level? 0 = t.level? 0 := @level?_append t.openScope [.empty] t.scopes rfl 0 ht
    exact .refl ht hlevel
  | closeScope hd h =>
    obtain ⟨s, hs, -⟩ := closeScope_ok.mp h
    have hpos := (closeScope_depth h).1
    have hlevel : t.level? 0 = u.level? 0 := @level?_append t [s] u.scopes hs 0 (show 0 < u.depth by omega)
    exact .refl ht hlevel.symm
  | openLoop | closeLoop | function | label => exact .refl ht rfl
  | bind h => exact acquires_of_grows ht (declare_grows rfl h)
  | register _ h => exact acquires_of_grows ht (declareGlobal_grows h)

theorem Replays.acquires (h : t.Replays es u) (ht : t.Rooted) : t.Acquires (es.filterMap Event.registered?) u := by
  induction h with
  | done => exact .refl ht.depth_pos rfl
  | step hs _ ih =>
    rw [List.filterMap_append]
    exact (hs.acquires ht.depth_pos).trans (ih (hs.rooted ht))

/-! ## The outline -/

theorem Acquires.fresh {hs : List Header} (h : t.Acquires hs u) : ∀ f ∈ hs, t.outline.functions f.name = none := by
  obtain ⟨vs, -, g, g', hg, -, hgains⟩ := h
  intro f hf
  have hfresh : g.find? f.name = none :=
    hgains.fresh (.ofHeader f) (List.mem_append_right _ (List.mem_map_of_mem hf))
  simp [outline, findAt?, hg, hfresh]

/-- Where names differ, bindings do not hide the functions among the entries. -/
theorem find?_functions {vs : List Entry} {hs : List Header} (hvs : ∀ e ∈ vs, e.header? = none)
    (hd : ((vs ++ hs.map Entry.ofHeader).map Entry.name).Nodup) (x : String) :
    ((vs ++ hs.map Entry.ofHeader).find? fun e => e.name = x).bind Entry.header? = hs.find? fun h => h.name = x := by
  have hnames : (hs.map Header.name).Nodup := by
    rw [List.map_append, List.map_map] at hd
    exact (List.nodup_append.mp hd).2.1
  apply Option.ext
  intro h
  rw [Option.bind_eq_some_iff, find?_key hnames]
  simp only [find?_key hd, List.mem_append, List.mem_map]
  constructor
  · rintro ⟨e, ⟨he | ⟨f, hf, rfl⟩, hx⟩, hh⟩
    · rw [hvs e he] at hh
      cases hh
    · cases hh
      exact ⟨hf, hx⟩
  · intro hh
    exact ⟨.ofHeader h, ⟨.inr ⟨h, hh.1, rfl⟩, hh.2⟩, rfl⟩

theorem Acquires.functions {hs : List Header} (h : t.Acquires hs u) (x : String) :
    u.outline.functions x = (t.outline.functions x).or (hs.find? fun h => h.name = x) := by
  obtain ⟨vs, hvs, g, g', hg, hg', hgains⟩ := h
  have hlook := hgains.lookup x
  simp only [outline, findAt?, hg, hg', Option.bind_some, hlook]
  cases hx : g.find? x with
  | some e =>
    have hout : hs.find? (fun h => h.name = x) = none := by
      refine List.find?_eq_none.mpr fun h hm hname => ?_
      have hnone := hgains.fresh (.ofHeader h) (List.mem_append_right _ (List.mem_map_of_mem hm))
      rw [show (Entry.ofHeader h).name = x from of_decide_eq_true hname, hx] at hnone
      cases hnone
    simp [hout]
  | none =>
    rw [Option.none_or, find?_functions hvs hgains.distinct]
    rfl

theorem Acquires.outline (h : t.Acquires [] u) : u.outline = ⟨u.depth, u.loopDepth, t.outline.functions⟩ := by
  have hf : u.outline.functions = t.outline.functions := by
    funext x
    rw [h.functions x, List.find?_nil, Option.or_none]
  rw [← hf]
  rfl

theorem Logged.outline (h : t.Logged es u) (ht : 0 < t.depth) : t.outline.replay? es = some u.outline := by
  have ha := h.acquires ht
  cases h with
  | openScope | openLoop =>
    rw [ha.outline, Outline.replay?_singleton]
    exact if_pos rfl
  | closeScope hd h =>
    obtain ⟨hd, hl⟩ := closeScope_depth h
    rw [ha.outline, hl, Outline.replay?_singleton]
    exact if_pos hd.symm
  | closeLoop h =>
    rw [ha.outline, Outline.replay?_singleton]
    exact if_pos (Nat.sub_add_cancel h)
  | bind h =>
    obtain ⟨hd, hl⟩ := declare_depth h
    rw [ha.outline, hd, hl]
    rfl
  | @register _ f _ h =>
    obtain ⟨hd, hl⟩ := declareGlobal_depth h
    have hnew : t.outline.functions f.name = none := ha.fresh f (by simp [Event.registered?])
    have hf : u.outline.functions = fun x => if f.name = x then some f else t.outline.functions x := by
      funext x
      rw [ha.functions x]
      by_cases hx : f.name = x
      · subst hx
        simp [hnew, Event.registered?]
      · simp [hx, Event.registered?]
    rw [Outline.replay?_singleton, Outline.next?, hnew, ← hf]
    simp [Table.outline, hd, hl]
  | function | label => rfl

theorem Replays.outline (h : t.Replays es u) (ht : t.Rooted) : t.outline.replay? es = some u.outline := by
  induction h with
  | done => rfl
  | step hs _ ih =>
    rw [Outline.replay?_append, hs.outline ht.depth_pos, Option.bind_some, ih (hs.rooted ht)]

theorem Replays.function? (h : t.Replays es u) (ht : t.Rooted) (x : String) :
    u.function? x = (t.function? x).or ((es.filterMap Event.registered?).find? fun g => g.name = x) := by
  rw [function?_eq_global ht.functionsGlobal, function?_eq_global (h.rooted ht).functionsGlobal]
  exact (h.acquires ht).functions x

end Table

end Dana
