import Dana.Proofs.Node
import Dana.Proofs.Replay

/-!
# The journal of a check

Whatever becomes of a check, its journal replays to the table that it leaves.
What is opened, checked and registered comes in the order of the text, and if
the check passes then all of it does and every block that was opened is closed.
-/

namespace Dana

/-! ## Nested blocks -/

/-- Each block that is opened is closed, the one opened last first. -/
inductive Nested : List Mark → Prop
  | nil : Nested []
  | wrap {b w} : Nested w → Nested (.opened b :: (w ++ [.closed b]))
  | append {v w} : Nested v → Nested w → Nested (v ++ w)

theorem Nested.count {w : List Mark} (h : Nested w) (b : Block) : w.count (.opened b) = w.count (.closed b) := by
  induction h with
  | nil => rfl
  | @wrap c w _ ih =>
    by_cases hc : c = b
    · subst hc
      simp [ih]
    · simp [hc, ih]
  | append _ _ ihv ihw => simp only [List.count_append, ihv, ihw]

theorem Table.Balance.of_nested {t u : Table} {w : List Mark} (h : t.Balance w u) (hw : Nested w) :
    u.depth = t.depth ∧ u.loopDepth = t.loopDepth := by
  have hscopes := h.scopes
  have hloops := h.loops
  rw [hw.count] at hscopes hloops
  exact ⟨by omega, by omega⟩

/-! ## The order of the text -/

/-- What the checker announces when it gets to a node. -/
inductive Start
  | block (b : Block)
  | function (h : Header)
deriving DecidableEq, Repr

def Event.start? : Event → Option Start
  | .scopeOpened _ => some (.block .scope)
  | .loopOpened _ => some (.block .loop)
  | .checkingFunction h => some (.function h)
  | _ => none

def Event.checked? : Event → Option Header
  | .checkingFunction h => some h
  | _ => none

namespace Node

def starts : Node → List Start
  | .stmt ⟨.cond _, _⟩ | .stmt ⟨.proc _, _⟩ | .branch _ => [.block .scope]
  | .stmt ⟨.loop _ _, _⟩ => [.block .loop, .block .scope]
  | .definition d => [.function d.header, .block .scope]
  | .stmt _ | .expr _ | .place _ | .call _ => []

def header? : Node → Option Header
  | .definition d => some d.header
  | _ => none

end Node

def Start.header? : Start → Option Header
  | .function h => some h
  | .block _ => none

theorem filterMap_checked? (journal : List Event) :
    journal.filterMap Event.checked? = (journal.filterMap Event.start?).filterMap Start.header? := by
  rw [List.filterMap_filterMap]
  congr 1
  funext e
  cases e <;> rfl

theorem filterMap_starts : ∀ ns : List Node,
    (ns.flatMap Node.starts).filterMap Start.header? = ns.filterMap Node.header?
  | [] => rfl
  | n :: ns => by
    rw [List.flatMap_cons, List.filterMap_append, filterMap_starts ns]
    cases n with
    | stmt s =>
      obtain ⟨form, line⟩ := s
      cases form <;> rfl
    | branch b | definition d | expr e | place p | call c => rfl

theorem Expr.starts_of_mem_nodes {n : Node} {e : Expr} (h : n ∈ e.nodes) : n.starts = [] := by
  rcases mem_nodes_cases h with ⟨_, rfl⟩ | ⟨_, rfl⟩ | ⟨_, rfl⟩ <;> rfl

theorem Expr.flatMap_starts (e : Expr) : e.nodes.flatMap Node.starts = [] :=
  List.flatMap_eq_nil_iff.mpr fun _ => starts_of_mem_nodes

theorem Expr.flatMap_starts? (o : Option Expr) : (Expr.nodes? o).flatMap Node.starts = [] := by
  cases o with
  | none => rfl
  | some e => exact e.flatMap_starts

theorem Expr.flatMap_startsAll (es : List Expr) : (Expr.nodesAll es).flatMap Node.starts = [] := by
  refine List.flatMap_eq_nil_iff.mpr fun n hn => ?_
  obtain ⟨e, -, hn⟩ := Expr.mem_nodesAll.mp hn
  exact starts_of_mem_nodes hn

theorem Place.flatMap_starts (p : Place) : p.nodes.flatMap Node.starts = [] := by
  obtain ⟨ident, indices, isString, line⟩ := p
  exact Expr.flatMap_startsAll indices

/-! ## What an action records -/

/-- From `t` the outcome has a journal that leads to its table, and that tells of
the starts and the new functions among the headers, in order. They are all there
and the blocks nested if there was no fault. -/
structure Outcome.Records {α : Type} (o : Outcome α) (t : Table) (ss : List Start) (hs : List Header) : Prop where
  replays : t.Replays o.journal o.table
  starts : o.journal.filterMap Event.start? <+: ss
  registered : o.journal.filterMap Event.registered? <+: t.newHeaders hs
  passed : ∀ a, o.result = .ok a → Nested (o.journal.filterMap Event.mark?) ∧
    o.journal.filterMap Event.start? = ss ∧ o.journal.filterMap Event.registered? = t.newHeaders hs

namespace Check

variable {α β : Type}

theorem run_change_ok {g : Table → Except Fault Table} {r : Table → List Event} {t u : Table} (h : g t = .ok u) :
    (change g r).run t = ⟨.ok (), u, r u⟩ := by
  simp only [run, change, h]

theorem run_change_error {g : Table → Except Fault Table} {r : Table → List Event} {t : Table} {f : Fault}
    (h : g t = .error f) : (change g r).run t = ⟨.error f, t, []⟩ := by
  simp only [run, change, h]

def Records (m : Check α) (ss : List Start) (hs : List Header) : Prop :=
  ∀ t : Table, t.Rooted → (m.run t).Records t ss hs

section
variable {t : Table} {ss ss' : List Start} {hs hs' : List Header}

theorem records_idle {r : Except Fault α} : (⟨r, t, []⟩ : Outcome α).Records t [] [] :=
  ⟨.done, List.nil_prefix, List.nil_prefix, fun _ _ => ⟨.nil, rfl, rfl⟩⟩

theorem records_fault {f : Fault} : (⟨.error f, t, []⟩ : Outcome α).Records t ss hs :=
  ⟨.done, List.nil_prefix, List.nil_prefix, fun _ h => nomatch h⟩

theorem records_pure {a : α} : (pure a : Check α).Records [] [] := fun _ _ => records_idle

theorem records_ask {g : Table → Except Fault α} : (ask g).Records [] [] := fun _ _ => records_idle

theorem records_fail {cause : Cause} {line : Line} : (fail cause line : Check α).Records ss hs :=
  fun _ _ => records_fault

theorem records_bind {m : Check α} {k : α → Check β} (hm : m.Records ss hs) (hk : ∀ a, (k a).Records ss' hs') :
    (m >>= k).Records (ss ++ ss') (hs ++ hs') := by
  intro t ht
  have hm := hm t ht
  rcases hrun : m.run t with ⟨f | a, u, j⟩
  · rw [hrun] at hm
    rw [run_bind_error hrun]
    have hnew : t.newHeaders hs <+: t.newHeaders (hs ++ hs') := by
      unfold Table.newHeaders
      rw [firstHeaders_append]
      exact List.prefix_append ..
    exact ⟨hm.replays, hm.starts.trans (List.prefix_append ..), hm.registered.trans hnew, fun _ h => nomatch h⟩
  · rw [hrun] at hm
    rw [run_bind_ok hrun]
    have hk := hk a u (hm.replays.rooted ht)
    obtain ⟨hnested, hstarts, hregistered⟩ := hm.passed a rfl
    -- what is new to `u` is what the first action has not registered
    have hnew : t.newHeaders (hs ++ hs') = t.newHeaders hs ++ u.newHeaders hs' := by
      apply Table.newHeaders_append
      intro x
      rw [hm.replays.function? ht x, hregistered]
    refine ⟨hm.replays.trans hk.replays, ?_, ?_, fun b hb => ?_⟩
    · rw [List.filterMap_append, hstarts]
      exact (List.prefix_append_right_inj ss).mpr hk.starts
    · rw [List.filterMap_append, hregistered, hnew]
      exact (List.prefix_append_right_inj _).mpr hk.registered
    · obtain ⟨hnested', hstarts', hregistered'⟩ := hk.passed b hb
      simp only [List.filterMap_append]
      rw [hstarts, hstarts', hregistered, hregistered', hnew]
      exact ⟨hnested.append hnested', rfl, rfl⟩

theorem records_forM {m : α → Check Unit} (hm : ∀ a, (m a).Records [] []) :
    ∀ as : List α, (as.forM m).Records [] []
  | [] => records_pure
  | a :: as => records_bind (hm a) fun _ => records_forM hm as

theorem records_function {h : Header} : (note (.checkingFunction h)).Records [.function h] [] :=
  fun _ _ => ⟨Table.Logged.function.replays, List.prefix_refl _, List.nil_prefix, fun _ _ => ⟨.nil, rfl, rfl⟩⟩

theorem records_noteLabel {line : Line} {label : Option String} : (noteLabel line label).Records [] [] := by
  cases label with
  | none => exact records_pure
  | some l =>
    intro t _
    exact ⟨Table.Logged.label.replays, List.nil_prefix, List.nil_prefix, fun _ _ => ⟨.nil, rfl, rfl⟩⟩

theorem records_bindName {role : Role} {name : String} {ty : Ty} {line : Line} :
    (bindName role name ty line).Records [] [] := by
  intro t _
  unfold bindName
  cases hd : t.declare (.ofBinding role name ty line) with
  | error f =>
    rw [run_change_error hd]
    exact records_fault
  | ok u =>
    rw [run_change_ok hd]
    exact ⟨(Table.Logged.bind hd).replays, List.nil_prefix, List.nil_prefix, fun _ _ => ⟨.nil, rfl, rfl⟩⟩

/-! ## Registering -/

theorem records_register {h : Header} (hf : t.function? h.name = none) : ((register h).run t).Records t [] [h] := by
  unfold register
  by_cases hn : h.name = ""
  · rw [if_pos hn]
    exact records_fault
  · rw [if_neg hn]
    cases hd : t.declareGlobal (.ofHeader h) with
    | error f =>
      rw [run_change_error hd]
      exact records_fault
    | ok u =>
      rw [run_change_ok hd]
      have hnew : t.newHeaders [h] = [h] := by simp [Table.newHeaders, firstHeaders, hf]
      refine ⟨(Table.Logged.register hn hd).replays, List.nil_prefix, ?_, fun _ _ => ⟨.nil, rfl, ?_⟩⟩
      · rw [hnew]
        exact List.prefix_refl _
      · rw [hnew]
        rfl

theorem records_headerDeclare {h : Header} {line : Line} : (h.declare line).Records [] [h] := by
  intro t _
  have hask : (ask fun t => .ok (t.function? h.name)).run t = ⟨.ok (t.function? h.name), t, []⟩ := rfl
  unfold Header.declare
  rw [run_bind_ok hask]
  cases hf : t.function? h.name with
  | some g => exact records_fault
  | none => exact records_register hf

theorem records_ensureRegistered {h : Header} : h.ensureRegistered.Records [] [h] := by
  intro t _
  have hask : (ask fun t => .ok (t.function? h.name)).run t = ⟨.ok (t.function? h.name), t, []⟩ := rfl
  unfold Header.ensureRegistered
  rw [run_bind_ok hask]
  cases hf : t.function? h.name with
  | some g =>
    have hnew : t.newHeaders [h] = [] := by simp [Table.newHeaders, firstHeaders, hf]
    exact ⟨.done, List.nil_prefix, List.nil_prefix, fun _ _ => ⟨.nil, rfl, hnew.symm⟩⟩
  | none => exact records_register hf

end

end Check

/-! ## Blocks -/

namespace Block

def enter : Block → Check Unit
  | .scope => Check.openScope
  | .loop => Check.openLoop

def leave : Block → Check Unit
  | .scope => Check.closeScope
  | .loop => Check.closeLoop

/-- The table inside the block. -/
def inner : Block → Table → Table
  | .scope => Table.openScope
  | .loop => Table.openLoop

theorem enter_run (b : Block) (t : Table) : ∃ e, b.enter.run t = ⟨.ok (), b.inner t, [e]⟩ ∧
    t.Logged [e] (b.inner t) ∧ e.mark? = some (.opened b) ∧ e.start? = some (.block b) ∧ e.registered? = none := by
  cases b with
  | scope => exact ⟨_, rfl, .openScope, rfl, rfl, rfl⟩
  | loop => exact ⟨_, rfl, .openLoop, rfl, rfl, rfl⟩

theorem leave_run (b : Block) {t u : Table} (ht : 0 < t.depth) (hd : u.depth = (b.inner t).depth)
    (hl : u.loopDepth = (b.inner t).loopDepth) : ∃ e v, b.leave.run u = ⟨.ok (), v, [e]⟩ ∧
    u.Logged [e] v ∧ e.mark? = some (.closed b) ∧ e.start? = none ∧ e.registered? = none := by
  cases b with
  | scope =>
    have hdepth : u.depth = t.depth + 1 := hd
    obtain ⟨v, hc⟩ : ∃ v, u.closeScope = .ok v := by
      cases hs : u.scopes with
      | nil => simp [Table.depth, hs] at hdepth
      | cons s outer => exact ⟨{ u with scopes := outer }, Table.closeScope_ok.mpr ⟨s, hs, rfl⟩⟩
    exact ⟨_, v, Check.run_change_ok hc, .closeScope (by omega) hc, rfl, rfl, rfl⟩
  | loop =>
    have hloop : u.loopDepth = t.loopDepth + 1 := hl
    exact ⟨_, _, rfl, .closeLoop (by omega), rfl, rfl, rfl⟩

end Block

theorem Table.newHeaders_inner (b : Block) (t : Table) (hs : List Header) :
    (b.inner t).newHeaders hs = t.newHeaders hs := by
  cases b with
  | scope => exact newHeaders_openScope
  | loop => exact newHeaders_openLoop

open Check

theorem records_block {α : Type} (b : Block) {m : Check α} {ss : List Start} {hs : List Header}
    (h : m.Records ss hs) : (b.enter >>= fun _ => m >>= fun _ => b.leave).Records (.block b :: ss) hs := by
  intro t ht
  obtain ⟨e, henter, hopen, hmark, hstart, hreg⟩ := b.enter_run t
  have hm := h (b.inner t) (hopen.rooted ht)
  rw [run_bind_ok henter]
  rcases hrun : m.run (b.inner t) with ⟨f | a, u, j⟩
  · rw [hrun] at hm
    rw [run_bind_error hrun]
    refine ⟨.step hopen hm.replays, ?_, ?_, fun _ h => nomatch h⟩
    · simpa [hstart] using hm.starts
    · simpa [hreg, Table.newHeaders_inner] using hm.registered
  · rw [hrun] at hm
    rw [run_bind_ok hrun]
    obtain ⟨hnested, hstarts, hregistered⟩ := hm.passed a rfl
    obtain ⟨hd, hl⟩ := hm.replays.balance.of_nested hnested
    obtain ⟨e', v, hleave, hclose, hmark', hstart', hreg'⟩ := b.leave_run ht.depth_pos hd hl
    rw [hleave]
    have hregistered' : j.filterMap Event.registered? = t.newHeaders hs := by
      rw [hregistered, Table.newHeaders_inner]
    refine ⟨.step hopen (hm.replays.trans hclose.replays), ?_, ?_, fun _ _ => ⟨?_, ?_, ?_⟩⟩
    · simp [hstart, hstart', hstarts]
    · simp [hreg, hreg', hregistered']
    · simpa [hmark, hmark'] using hnested.wrap
    · simp [hstart, hstart', hstarts]
    · simp [hreg, hreg', hregistered']

/-! ## What a check records -/

theorem Task.check_records (w : Task) : w.check.Records (w.nodes.flatMap Node.starts) w.headers := by
  induction w with
  | assign target value line =>
    have hnone : (Task.stmt ⟨.assign target value, line⟩).nodes.flatMap Node.starts = [] := by
      show (target.nodes ++ value.nodes).flatMap Node.starts = []
      rw [List.flatMap_append, target.flatMap_starts, value.flatMap_starts, List.append_nil]
    rw [hnone]
    exact records_ask
  | skip line | exit line | nil | noBranch => exact records_pure
  | ret value line =>
    have hnone : (Task.stmt ⟨.ret value, line⟩).nodes.flatMap Node.starts = [] := Expr.flatMap_starts? value
    rw [hnone]
    cases value with
    | none => exact records_pure
    | some e => exact records_bind records_ask fun _ => records_pure
  | brk label line | cont label line => exact records_ask
  | cond bs line ih =>
    simp only [check, Stmt.check]
    split
    · exact records_fail
    · exact records_block .scope ih
  | loop label body line ih =>
    -- the actions stand in one row, so the blocks are told apart by associativity
    have hbody := records_block .loop (records_block .scope ih)
    simp only [bind_assoc] at hbody
    exact records_bind records_noteLabel fun _ => hbody
  | proc call line =>
    have hscope : (Task.stmt ⟨.proc call, line⟩).nodes.flatMap Node.starts = [.block .scope] := by
      show .block .scope :: call.nodes.flatMap Node.starts = [.block .scope]
      rw [call.flatMap_starts]
    rw [hscope]
    exact records_block .scope records_ask
  | define d line ih => exact ih
  | declare h line => exact records_headerDeclare
  | vars names ty line =>
    simp only [check, Stmt.check]
    split
    · exact records_fail
    · exact records_forM (fun _ => records_bindName) names
  | cons s ss ih ihs | consBranch s ss ih ihs =>
    have hrec := records_bind ih fun _ => ihs
    rw [← List.flatMap_append] at hrec
    exact hrec
  | branch condition body line ih =>
    have hcond : (Branch.checkCondition condition).Records [] [] := by
      cases condition with
      | none => exact records_pure
      | some e => exact records_ask
    have hscope : (Task.branch ⟨condition, body, line⟩).nodes.flatMap Node.starts =
        .block .scope :: (Task.block body).nodes.flatMap Node.starts := by
      show .block .scope :: (Expr.nodes? condition ++ Stmt.nodesAll body).flatMap Node.starts = _
      rw [List.flatMap_append, Expr.flatMap_starts? condition, List.nil_append]
      rfl
    rw [hscope]
    exact records_bind hcond fun _ => records_block .scope ih
  | definition header body line ih =>
    have hparams : header.bindParameters.Records [] [] := records_forM (fun _ => records_bindName) _
    have hbody := records_block .scope (records_bind hparams fun _ => ih)
    simp only [bind_assoc] at hbody
    simp only [check, Definition.check]
    split
    · exact records_fail
    · exact records_bind records_ensureRegistered fun _ => records_bind records_function fun _ => hbody

/-! ## Main result -/

/-- **The journal tells what became of the table**, whether the check passes or
stops. Its records lead from the table before to the one after, and replaying them
takes the outline of the first to that of the last. What is open has changed by
what they open and close, and the global scope has got the functions they register
and no other. Functions that are new, functions that are checked and blocks come
as they stand in the text; if the check passes then all of them do, and the blocks
are nested. -/
theorem journal_replays {t : Table} (h : t.Reachable) (ht : 0 < t.depth) {p : List Stmt} {o : Outcome Unit}
    (ho : (Stmt.checkAll p).run t = o) :
    t.Replays o.journal o.table ∧
    t.outline.replay? o.journal = some o.table.outline ∧
    t.Balance (o.journal.filterMap Event.mark?) o.table ∧
    t.Acquires (o.journal.filterMap Event.registered?) o.table ∧
    o.journal.filterMap Event.registered? <+: t.newHeaders (Stmt.headersAll p) ∧
    o.journal.filterMap Event.start? <+: (Stmt.nodesAll p).flatMap Node.starts ∧
    (o.result = .ok () →
      Nested (o.journal.filterMap Event.mark?) ∧
      o.journal.filterMap Event.registered? = t.newHeaders (Stmt.headersAll p) ∧
      o.journal.filterMap Event.start? = (Stmt.nodesAll p).flatMap Node.starts ∧
      o.journal.filterMap Event.checked? = (Stmt.nodesAll p).filterMap Node.header?) := by
  have hroot : t.Rooted := ⟨ht, h.functionsGlobal⟩
  have hrec : o.Records t ((Stmt.nodesAll p).flatMap Node.starts) (Stmt.headersAll p) :=
    ho ▸ Task.check_records (.block p) t hroot
  refine ⟨hrec.replays, hrec.replays.outline hroot, hrec.replays.balance, hrec.replays.acquires hroot,
    hrec.registered, hrec.starts, ?_⟩
  intro hok
  obtain ⟨hnested, hstarts, hregistered⟩ := hrec.passed () hok
  refine ⟨hnested, hregistered, hstarts, ?_⟩
  rw [filterMap_checked?, hstarts, filterMap_starts]

/-- One check stops with blocks open, the other passes and meets a function twice. -/
theorem journal_replays_nested :
    Table.standard.openScope.Reachable ∧ 0 < Table.standard.openScope.depth ∧
    Table.standard.openScope.outline.replay? ((Stmt.checkAll stuck).run Table.standard.openScope).journal =
      some ((Stmt.checkAll stuck).run Table.standard.openScope).table.outline ∧
    Nested (((Stmt.checkAll nested).run Table.standard.openScope).journal.filterMap Event.mark?) ∧
    Table.standard.openScope.newHeaders (Stmt.headersAll nested) =
      [.make "f" none [.ofNames ["a"] .int true] 3, .make "g" (some .int) [] 5] ∧
    ((Stmt.checkAll nested).run Table.standard.openScope).journal.filterMap Event.registered? =
      Table.standard.openScope.newHeaders (Stmt.headersAll nested) ∧
    ((Stmt.checkAll nested).run Table.standard.openScope).journal.filterMap Event.checked? =
      [.make "f" none [.ofNames ["a"] .int true] 3, .make "f" (some .byte) [] 7] := by
  have hr : Table.standard.openScope.Reachable := .after .openScope (.after .registerLibrary .empty)
  have hd : 0 < Table.standard.openScope.depth := by decide
  obtain ⟨-, hstuck, -⟩ := journal_replays hr hd (p := stuck) rfl
  obtain ⟨-, -, -, -, -, -, hpass⟩ := journal_replays hr hd (p := nested) rfl
  obtain ⟨hnested, hregistered, -, hchecked⟩ := hpass rfl
  exact ⟨hr, hd, hstuck, hnested, rfl, hregistered, hchecked⟩

end Dana
