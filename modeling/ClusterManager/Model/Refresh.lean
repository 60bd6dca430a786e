import ClusterManager.Model.Allocation

/-!
# What a refresh of the slots leaves behind

The manager keeps two things of a master's slots: their ranges, which the planner walks, and
their number, which it counts down. `updateAfterMeet` writes the ranges, once, when it first
sees a node; `updateSlots` writes the number, each time. So the ranges are for ever those of
the reply that the node was filed by, whatever has become of its slots since: `filed` is the
record of these replies, and `slots_afterCalls` says that the topology is nothing but it.

It follows when the two go together after a call of `updateSlots`: when each known master is
shown with the ranges it was filed with (`updateSlots_refreshesWhole_iff`). A cluster that is
created and then scaled in one process meets its nodes before they have any slot, and never
gets there.
-/

namespace ClusterManager

variable {σ : Type}

/-- The two operations that look at the slots. -/
inductive RefreshKind where
  | updateAfterMeet
  | updateSlots
  deriving DecidableEq, Repr

/-- A call of one of them: with the containers that are tracked then, and with Redis as it is
then. -/
structure RefreshCall (σ : Type) where
  kind : RefreshKind
  loginNode : RuntimeNode
  clusterName : String
  nodeManager : BaseNodeManager
  redis : σ

namespace RefreshCall

variable (h : Handler RedisCmd RedisCmd.Reply σ)

/-- The operation that is called. -/
def action (call : RefreshCall σ) : ManagerM PUnit :=
  match call.kind with
  | .updateAfterMeet => ClusterManager.updateAfterMeet call.loginNode call.clusterName
  | .updateSlots => ClusterManager.updateSlots call.loginNode call.clusterName

/-- The manager when it is called. -/
def start (call : RefreshCall σ) (m : Manager) : Manager :=
  { m with nodeManager := call.nodeManager }

/-- The manager after the call. -/
def next (call : RefreshCall σ) (m : Manager) : Manager :=
  (Session.exec h call.action (call.start m) call.redis).1.2

/-- The text that the call reads, if it reads one. -/
def text (call : RefreshCall σ) : Option String :=
  if call.nodeManager.num = 0 ∨ call.nodeManager.nodes = [] then none
  else (h call.redis (.clusterNodes call.loginNode.clientConnAddr)).1.toOption

/-- The nodes that the call is shown. -/
def shown (call : RefreshCall σ) : List ClusterNode :=
  ((call.text h).map (shownNodes call.nodeManager call.clusterName)).getD []

end RefreshCall

/-- The manager after calls, one after the other. -/
def afterCalls (h : Handler RedisCmd RedisCmd.Reply σ) (m : Manager)
    (calls : List (RefreshCall σ)) : Manager :=
  calls.foldl (fun m call => call.next h m) m

/-! ### The ranges that are filed -/

/-- The ranges of each node in a topology. -/
def Topology.ranges (t : Topology) (id : String) : Option (List SlotRange) :=
  (t.nodes id).map (·.slots)

/-- A node is filed with the ranges it is first shown with. -/
def fileRanges (filed : String → Option (List SlotRange)) (n : ClusterNode) :
    String → Option (List SlotRange) :=
  if (filed n.id).isNone then Function.update filed n.id (some n.slots) else filed

/-- What a call files. -/
def RefreshCall.files (h : Handler RedisCmd RedisCmd.Reply σ)
    (filed : String → Option (List SlotRange)) (call : RefreshCall σ) :
    String → Option (List SlotRange) :=
  match call.kind with
  | .updateAfterMeet => (call.shown h).foldl fileRanges filed
  | .updateSlots => filed

/-- **The ranges that each node was filed with**: those it was shown with when it was first
met, or those that were known before all calls. -/
def filed (h : Handler RedisCmd RedisCmd.Reply σ) (m : Manager)
    (calls : List (RefreshCall σ)) : String → Option (List SlotRange) :=
  calls.foldl (RefreshCall.files h) m.topo.ranges

section Files

variable {h : Handler RedisCmd RedisCmd.Reply σ} {m : Manager}

theorem ranges_fileNew (t : Topology) (n : ClusterNode) :
    (t.fileNew n).ranges = fileRanges t.ranges n := by
  have hnew : (t.ranges n.id).isNone = (t.nodes n.id).isNone := Option.isNone_map
  rw [Topology.fileNew, fileRanges, hnew]
  split
  · funext id
    rw [Topology.ranges, Topology.addMetNode_nodes, Function.update_apply, Function.update_apply]
    split <;> rfl
  · rfl

theorem ranges_foldl_fileNew (t : Topology) (nodes : List ClusterNode) :
    (nodes.foldl Topology.fileNew t).ranges = nodes.foldl fileRanges t.ranges := by
  induction nodes generalizing t with
  | nil => rfl
  | cons n nodes ih => rw [List.foldl_cons, List.foldl_cons, ih, ranges_fileNew]

theorem ranges_refreshSlots (t : Topology) (n : ClusterNode) (v : ℤ) :
    (t.refreshSlots n v).ranges = t.ranges := by
  funext id
  simp only [Topology.ranges, Topology.refreshSlots, Option.map_map]
  refine congrArg (Option.map · (t.nodes id)) (funext fun m => ?_)
  rw [Function.comp_apply]
  split <;> rfl

variable (call : RefreshCall σ)

theorem RefreshCall.text_eq_some {text : String} :
    call.text h = some text ↔ call.nodeManager.num ≠ 0 ∧ call.nodeManager.nodes ≠ [] ∧
      (h call.redis (.clusterNodes call.loginNode.clientConnAddr)).1 = .ok text := by
  rw [RefreshCall.text]
  by_cases hasks : call.nodeManager.num = 0 ∨ call.nodeManager.nodes = []
  · rw [if_pos hasks]
    refine iff_of_false nofun fun hread => ?_
    exact hasks.elim hread.1 hread.2.1
  · rw [if_neg hasks]
    rw [not_or] at hasks
    rcases (h call.redis (.clusterNodes call.loginNode.clientConnAddr)).1 with err | text' <;>
      simp [Except.toOption, hasks]

/-- Without a reply nothing is filed. -/
theorem topo_updateAfterMeet_of_none (htext : call.text h = none) :
    (Session.exec h (updateAfterMeet call.loginNode call.clusterName) (call.start m)
      call.redis).1.2.topo = m.topo := by
  rw [updateAfterMeet, Session.exec_bind, Session.exec_get]
  dsimp only
  by_cases hnum : (call.start m).nodeManager.num = 0
  · rw [if_pos hnum]
    rfl
  rw [if_neg hnum, Session.exec_bind]
  by_cases hne : (call.start m).nodeManager.nodes = []
  · rw [(getClusterNodes_of_nil hne call.loginNode call.clusterName).1]
    rfl
  · rcases hr : (h call.redis (.clusterNodes call.loginNode.clientConnAddr)).1 with err | text
    · rw [(getClusterNodes_of_error (m := call.start m) hne call.clusterName hr).1]
      rfl
    · rw [(call.text_eq_some).mpr ⟨hnum, hne, hr⟩] at htext
      cases htext

/-- **What one call does to the ranges.** -/
theorem ranges_next : (call.next h m).topo.ranges = call.files h m.topo.ranges := by
  rw [RefreshCall.next, RefreshCall.action, RefreshCall.files]
  cases call.kind with
  | updateAfterMeet =>
    dsimp only
    rw [RefreshCall.shown]
    cases htext : call.text h with
    | none =>
      rw [topo_updateAfterMeet_of_none call htext]
      rfl
    | some text =>
      obtain ⟨hnum, hne, hr⟩ := call.text_eq_some.mp htext
      rw [(exec_updateAfterMeet (m := call.start m) call.clusterName hnum hne hr).2]
      exact ranges_foldl_fileNew _ _
  | updateSlots =>
    -- only the numbers are written
    refine Session.Keeps.exec (I := fun m' : Manager => m'.topo.ranges = m.topo.ranges)
      (Session.Keeps.get_bind fun c _ => ?_) rfl
    split
    · exact Session.Keeps.pure _
    have hreset : Session.Keeps (fun m' : Manager => m'.topo.ranges = m.topo.ranges)
        (modifyTopo Topology.resetEmptyMasters) := Session.Keeps.modify fun _ hm => hm
    refine hreset.bind fun _ => (getClusterNodes_keeps _ _ _).bind fun nodes =>
      Session.Keeps.forM fun node _ => Session.Keeps.get_bind fun c _ => ?_
    split
    · exact Session.Keeps.modify fun m' hm => (ranges_refreshSlots _ _ _).trans hm
    · exact Session.Keeps.pure _

/-- **The ranges that are known are those that were filed.** -/
theorem slots_afterCalls (calls : List (RefreshCall σ)) :
    (afterCalls h m calls).topo.ranges = filed h m calls := by
  rw [afterCalls, filed]
  induction calls generalizing m with
  | nil => rfl
  | cons call calls ih => rw [List.foldl_cons, List.foldl_cons, ih, ranges_next]

end Files

/-! ### Ranges and numbers -/

/-- **The slots are refreshed as a whole** by a call of `updateSlots` that reads nodes: each
master of the reply that is known has its ranges and the number of its slots. -/
def RefreshesWhole (h : Handler RedisCmd RedisCmd.Reply σ) (m : Manager) (call : RefreshCall σ) :
    Prop :=
  call.kind = .updateSlots →
    ∀ text, lastShown h (Session.sent h call.action (call.start m) call.redis) = some text →
      shownNodes call.nodeManager call.clusterName text ≠ [] →
      (Session.exec h call.action (call.start m) call.redis).1.1 = .ok ⟨⟩ →
      ∀ n ∈ shownNodes call.nodeManager call.clusterName text, n.nodeType = .master →
        ∀ known, (call.next h m).topo.nodes n.id = some known →
          known.slots = n.slots ∧ known.slotsNum = n.owned

/-- Each master is shown with the ranges it was filed with, and no range is written backwards. -/
def ShownAsFiled (h : Handler RedisCmd RedisCmd.Reply σ) (m : Manager)
    (calls : List (RefreshCall σ)) (call : RefreshCall σ) : Prop :=
  call.kind = .updateSlots → ∀ n ∈ call.shown h, n.nodeType = .master →
    ∀ ranges, filed h m calls n.id = some ranges →
      ranges = n.slots ∧ ∀ r ∈ n.slots, r.start ≤ r.stop + 1

section Whole

variable {h : Handler RedisCmd RedisCmd.Reply σ} {m : Manager} {call : RefreshCall σ}

/-- What a call of `updateSlots` reads. -/
theorem lastShown_updateSlots (hkind : call.kind = .updateSlots) :
    lastShown h (Session.sent h call.action (call.start m) call.redis) = call.text h := by
  rw [RefreshCall.action, hkind]
  dsimp only
  cases htext : call.text h with
  | none =>
    by_cases hnum : (call.start m).nodeManager.num = 0
    · rw [(updateSlots_of_num call.loginNode call.clusterName hnum).2]
      rfl
    by_cases hne : (call.start m).nodeManager.nodes = []
    · rw [sent_updateSlots_of_nil call.loginNode call.clusterName hne]
      rfl
    rcases hr : (h call.redis (.clusterNodes call.loginNode.clientConnAddr)).1 with err | text
    · rw [(updateSlots_of_error hnum hne call.clusterName hr).2]
      simp [lastShown, shownText, hr, Except.toOption]
    · rw [call.text_eq_some.mpr ⟨hnum, hne, hr⟩] at htext
      cases htext
  | some text =>
    obtain ⟨hnum, hne, hr⟩ := call.text_eq_some.mp htext
    obtain ⟨-, rest, hsent, hforget⟩ := updateSlots_of_ok (m := call.start m) hnum hne
      call.clusterName hr
    rw [hsent, lastShown, lastShown_of_forget hforget, shownText, hr]
    rfl

/-- The topology after a call of `updateSlots` that has read a reply. -/
theorem next_of_text (hkind : call.kind = .updateSlots) {text : String}
    (htext : call.text h = some text) :
    (Session.exec h call.action (call.start m) call.redis).1.1 = .ok ⟨⟩ ∧
      (call.next h m).topo =
        m.topo.noteSlots (shownNodes call.nodeManager call.clusterName text) := by
  obtain ⟨hnum, hne, hr⟩ := call.text_eq_some.mp htext
  rw [RefreshCall.next, RefreshCall.action, hkind]
  dsimp only
  rw [(updateSlots_of_ok (m := call.start m) hnum hne call.clusterName hr).1]
  exact ⟨rfl, rfl⟩

/-- A known node has the ranges it was filed with. -/
theorem exists_known_iff (hkind : call.kind = .updateSlots) (calls : List (RefreshCall σ))
    {id : String} {ranges : List SlotRange} :
    filed h m calls id = some ranges ↔
      ∃ known, (call.next h (afterCalls h m calls)).topo.nodes id = some known ∧
        known.slots = ranges := by
  have hnext : (call.next h (afterCalls h m calls)).topo.ranges = filed h m calls := by
    rw [ranges_next, RefreshCall.files, hkind, slots_afterCalls]
  rw [← hnext]
  exact Option.map_eq_some_iff

/-- The number of slots of a master that the reply shows always in the same way. -/
theorem slotsNum_of_known {t : Topology} {nodes : List ClusterNode} {n known : ClusterNode}
    (hn : n ∈ nodes) (hmaster : n.nodeType = .master)
    (hknown : (t.noteSlots nodes).nodes n.id = some known)
    (hsame : ∀ n' ∈ nodes, n'.nodeType = .master → n'.id = n.id → n'.slots = n.slots) :
    known.slotsNum = calculateSlots n.slots := by
  have hsome : (t.nodes n.id).isSome := by
    rw [← Topology.isSome_noteSlots, hknown]
    rfl
  have hnum := Topology.slotsNum_noteSlots (v := calculateSlots n.slots) hsome
    (fun n' hn' hmaster' hid => by rw [hsame n' hn' hmaster' hid]) ⟨n, hn, hmaster, rfl⟩
  rwa [Topology.slotsNum, hknown] at hnum

end Whole

/-- **When the slots are refreshed as a whole**: after any calls, a call of `updateSlots`
leaves ranges and numbers that go together exactly if it is shown each known master with the
ranges the master was filed with. -/
theorem updateSlots_refreshesWhole_iff (h : Handler RedisCmd RedisCmd.Reply σ) (m : Manager)
    (calls : List (RefreshCall σ)) (call : RefreshCall σ) :
    RefreshesWhole h (afterCalls h m calls) call ↔ ShownAsFiled h m calls call := by
  refine imp_congr_right fun hkind => ?_
  rw [lastShown_updateSlots hkind, RefreshCall.shown]
  cases htext : call.text h with
  | none => simp
  | some text =>
    obtain ⟨hok, htopo⟩ := next_of_text (m := afterCalls h m calls) hkind htext
    simp only [Option.some_inj, forall_eq', Option.map_some, Option.getD_some, hok, true_implies]
    constructor
    · intro hwhole n hn hmaster ranges hfiled
      have hwhole := hwhole (List.ne_nil_of_mem hn)
      obtain ⟨known, hknown, rfl⟩ := (exists_known_iff hkind calls).mp hfiled
      obtain ⟨hslots, hnum⟩ := hwhole n hn hmaster known hknown
      refine ⟨hslots, (calculateSlots_eq_iff n.slots).mp ?_⟩
      rw [htopo] at hknown
      rw [← slotsNum_of_known hn hmaster hknown, hnum]
      · rfl
      · intro n' hn' hmaster' hid
        rw [← htopo, ← hid] at hknown
        exact ((hwhole n' hn' hmaster' known hknown).1).symm.trans hslots
    · intro hfiled _ n hn hmaster known hknown
      have hranges := fun n' hn' hmaster' (hid : n'.id = n.id) =>
        (hfiled n' hn' hmaster' known.slots
          ((exists_known_iff hkind calls).mpr ⟨known, hid ▸ hknown, rfl⟩))
      obtain ⟨hslots, hforward⟩ := hranges n hn hmaster rfl
      refine ⟨hslots, ?_⟩
      rw [htopo] at hknown
      rw [slotsNum_of_known hn hmaster hknown fun n' hn' hmaster' hid =>
        ((hranges n' hn' hmaster' hid).1).symm.trans hslots]
      exact (calculateSlots_eq_iff n.slots).mpr hforward

/-! ### A cluster that is created and then scaled -/

/-- Redis that shows what its state says. -/
def showingRedis : Handler RedisCmd RedisCmd.Reply String := fun text c =>
  match c with
  | .clusterNodes _ => (.ok text, text)
  | .clusterMeet _ _ _ | .clusterReplicate _ _ | .clusterForget _ _ | .clusterAddSlots _ _ =>
    (.ok (), text)
  | .migrateSlots _ => ([], text)
  | .invalidateSlots _ _ => ((), text)

/-- A call with one container. -/
def loneCall (kind : RefreshKind) (text : String) : RefreshCall String :=
  ⟨kind, loneContainer, "m", loneMaster.nodeManager, text⟩

/-- The call in which the node is met. -/
def meetingCall : RefreshCall String :=
  loneCall .updateAfterMeet "a 10.88.0.2:6379@16379 myself,master - 0 0 1 connected"

/-- The node is met before it has any slot. When it has them all, their number is noted and
the ranges stay empty. -/
theorem not_refreshesWhole_of_met_before :
    ¬ RefreshesWhole showingRedis
      (afterCalls showingRedis { nodesPerShard := 2 } [meetingCall])
      (loneCall .updateSlots allSlotsText) := by
  intro hwhole
  have hshown : shownNodes loneMaster.nodeManager "m" allSlotsText =
      [{ id := "a", ip := "10.88.0.2", port := 6379, nodeType := .master, masterID := "-"
         linkState := "connected", slots := [⟨0, 16383⟩], clusterName := "m" }] := by
    decide +kernel
  have hfiled : filed showingRedis { nodesPerShard := 2 } [meetingCall] "a" = some [] := by
    decide +kernel
  have hkind : (loneCall .updateSlots allSlotsText).kind = .updateSlots := rfl
  have htext : (loneCall .updateSlots allSlotsText).text showingRedis = some allSlotsText := rfl
  obtain ⟨known, hknown, hslots⟩ := (exists_known_iff hkind [meetingCall]).mp hfiled
  obtain ⟨hok, -⟩ := next_of_text (m := afterCalls showingRedis { nodesPerShard := 2 }
    [meetingCall]) hkind htext
  obtain ⟨n, hn, hmaster, hid, hall⟩ : ∃ n ∈ shownNodes loneMaster.nodeManager "m" allSlotsText,
      n.nodeType = .master ∧ n.id = "a" ∧ n.slots = [⟨0, 16383⟩] := by
    rw [hshown]
    exact ⟨_, List.mem_cons_self, rfl, rfl, rfl⟩
  rw [← hid] at hknown
  obtain ⟨hsame, -⟩ := hwhole hkind allSlotsText ((lastShown_updateSlots hkind).trans htext)
    (List.ne_nil_of_mem hn) hok n hn hmaster known hknown
  rw [hslots, hall] at hsame
  cases hsame

end ClusterManager
