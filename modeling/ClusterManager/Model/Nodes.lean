import ClusterManager.Model.Execution

/-!
# What the operations leave alone

The operations of the cluster manager change what it knows of the Redis cluster. They do
not change which containers the backend tracks: `KeepsNodes` says so, and each operation
has it because each part of it has.

The number of masters is another matter. It is whatever the last reply has shown
(`updateAfterSetNodeRole_ok`), and stays that when the slots are moved
(`migrateSlotsToEmptyNode_masterIDs`).
-/

namespace ClusterManager

variable {α : Type}

/-- The tracked nodes stay the same. -/
def KeepsNodes (x : ManagerM α) : Prop :=
  ∀ base, Session.Keeps (fun c : Manager => c.nodeManager = base) x

namespace KeepsNodes

variable {β : Type}

theorem pure (a : α) : KeepsNodes (Pure.pure a) := fun _ => Session.Keeps.pure a

theorem throw (e : Failure) : KeepsNodes (MonadExcept.throw e : ManagerM α) :=
  fun _ => Session.Keeps.throw e

theorem fail (msg : String) : KeepsNodes (Session.fail msg : ManagerM α) :=
  fun _ => Session.Keeps.fail msg _

theorem orFail (r : Except String α) (msg : String) :
    KeepsNodes (Session.orFail r msg : ManagerM α) :=
  fun _ => Session.Keeps.orFail r msg

theorem redis (c : RedisCmd) : KeepsNodes (ManagerM.redis c) :=
  fun _ => Session.Keeps.lift _

theorem get : KeepsNodes (MonadState.get : ManagerM Manager) :=
  fun _ _ hm => hm

theorem bind {x : ManagerM α} {f : α → ManagerM β} (hx : KeepsNodes x)
    (hf : ∀ a, KeepsNodes (f a)) : KeepsNodes (x >>= f) :=
  fun base => (hx base).bind fun a => hf a base

theorem modify {f : Manager → Manager} (hf : ∀ c, (f c).nodeManager = c.nodeManager) :
    KeepsNodes (modify f : ManagerM PUnit) :=
  fun _ => Session.Keeps.modify fun c hc => (hf c).trans hc

theorem modifyTopo (f : Topology → Topology) : KeepsNodes (ClusterManager.modifyTopo f) :=
  modify fun _ => by rfl

theorem tryCatch {x : ManagerM α} {f : Failure → ManagerM α} (hx : KeepsNodes x)
    (hf : ∀ e, KeepsNodes (f e)) : KeepsNodes (tryCatch x f) :=
  fun base => (hx base).tryCatch fun e => hf e base

theorem wrap {x : ManagerM α} (hx : KeepsNodes x) (msg : String) :
    KeepsNodes (Session.wrap msg x) :=
  fun base => (hx base).wrap msg

theorem forM {f : α → ManagerM PUnit} {l : List α} (hf : ∀ a ∈ l, KeepsNodes (f a)) :
    KeepsNodes (forM l f : ManagerM PUnit) :=
  fun base => Session.Keeps.forM fun a ha => hf a ha base

theorem ite {p : Prop} [Decidable p] {x y : ManagerM α} (hx : KeepsNodes x)
    (hy : KeepsNodes y) : KeepsNodes (if p then x else y) := by
  split
  · exact hx
  · exact hy

end KeepsNodes

/-! ### Reading the nodes -/

/-- Asking for the nodes changes nothing in the memory. -/
theorem getClusterNodes_keeps (I : Manager → Prop) (loginNode : RuntimeNode)
    (clusterName : String) : Session.Keeps I (getClusterNodes loginNode clusterName) := by
  have hforget : ∀ ids, Session.Keeps I (forgetFailedClusterNodes clusterName ids) := by
    refine fun ids => Session.Keeps.get_bind fun c _ => ?_
    split
    · exact Session.Keeps.pure _
    · exact Session.Keeps.forM fun _ _ => (Session.Keeps.lift _).bind fun _ => Session.Keeps.pure _
  refine Session.Keeps.get_bind fun c _ => ?_
  simp only [Session.fail_bind]
  split
  · exact Session.Keeps.fail _ _
  refine (Session.Keeps.lift _).bind fun r => (Session.Keeps.orFail _ _).bind fun text => ?_
  refine Session.Keeps.get_bind fun c _ => ?_
  dsimp only
  split
  · exact (hforget _).bind fun _ => Session.Keeps.pure _
  · exact Session.Keeps.pure _

theorem getClusterNodes_keepsNodes (loginNode : RuntimeNode) (clusterName : String) :
    KeepsNodes (getClusterNodes loginNode clusterName) := fun _ => getClusterNodes_keeps _ _ _

theorem updateAfterMeet_keepsNodes (loginNode : RuntimeNode) (clusterName : String) :
    KeepsNodes (updateAfterMeet loginNode clusterName) := by
  refine KeepsNodes.get.bind fun c => KeepsNodes.ite (KeepsNodes.pure _) ?_
  refine (getClusterNodes_keepsNodes _ _).bind fun nodes =>
    (KeepsNodes.forM fun node _ => KeepsNodes.get.bind fun c => ?_).bind fun _ =>
      KeepsNodes.modifyTopo _
  exact KeepsNodes.ite (KeepsNodes.modify fun _ => by rfl) (KeepsNodes.pure _)

theorem buildMasterSlaveTopology_keepsNodes (masters slaves : List ClusterNode) :
    KeepsNodes (buildMasterSlaveTopology masters slaves) := by
  refine (KeepsNodes.forM fun master _ => KeepsNodes.modify fun _ => by rfl).bind fun _ =>
    (KeepsNodes.forM fun slave _ => KeepsNodes.get.bind fun c => ?_).bind fun _ =>
      KeepsNodes.modify fun _ => by rfl
  simp only [Session.fail_bind]
  exact KeepsNodes.ite (KeepsNodes.fail _) (KeepsNodes.modify fun _ => by rfl)

theorem updateAfterSetNodeRole_keepsNodes (loginNode : RuntimeNode) (clusterName : String) :
    KeepsNodes (updateAfterSetNodeRole loginNode clusterName) := by
  refine KeepsNodes.bind (KeepsNodes.modify fun _ => by rfl) fun _ =>
    KeepsNodes.get.bind fun c => ?_
  refine KeepsNodes.ite (KeepsNodes.pure _) ?_
  exact (getClusterNodes_keepsNodes _ _).bind fun nodes => KeepsNodes.ite (KeepsNodes.pure _)
    (buildMasterSlaveTopology_keepsNodes _ _)

theorem updateSlots_keepsNodes (loginNode : RuntimeNode) (clusterName : String) :
    KeepsNodes (updateSlots loginNode clusterName) := by
  refine KeepsNodes.get.bind fun c => KeepsNodes.ite (KeepsNodes.pure _) ?_
  refine (KeepsNodes.modifyTopo _).bind fun _ => (getClusterNodes_keepsNodes _ _).bind fun nodes =>
    KeepsNodes.forM fun node _ => KeepsNodes.get.bind fun c => ?_
  exact KeepsNodes.ite (KeepsNodes.modifyTopo _) (KeepsNodes.pure _)

/-! ### Meeting the nodes -/

theorem waitForMeetSync_keepsNodes (addr : String) (expectedNodes n : ℕ) :
    KeepsNodes (waitForMeetSync addr expectedNodes n) := by
  induction n with
  | zero => exact KeepsNodes.fail _
  | succ n ih =>
    exact (KeepsNodes.redis (.clusterNodes _)).bind fun r => (KeepsNodes.orFail _ _).bind fun _ =>
      KeepsNodes.ite (KeepsNodes.pure _) ih

theorem meetNodes_keepsNodes (clientAddr clusterName : String) :
    KeepsNodes (meetNodes clientAddr clusterName) := by
  refine KeepsNodes.bind ?_ fun _ => ?_
  · refine KeepsNodes.get.bind fun c => KeepsNodes.forM fun node _ => ?_
    refine KeepsNodes.ite (KeepsNodes.pure _) ?_
    refine KeepsNodes.ite (KeepsNodes.pure _) ?_
    split
    · exact KeepsNodes.pure _
    · exact (KeepsNodes.redis (.clusterMeet _ _ _)).bind fun r => KeepsNodes.orFail _ _
  · exact KeepsNodes.get.bind fun c => KeepsNodes.forM fun node _ =>
      (waitForMeetSync_keepsNodes _ _ _).wrap _

/-! ### Roles -/

theorem setNodeAsSlave_keepsNodes (masterIP slaveIP clusterName : String) :
    KeepsNodes (setNodeAsSlave masterIP slaveIP clusterName) := by
  refine KeepsNodes.get.bind fun c => ?_
  split
  · exact KeepsNodes.fail _
  refine (KeepsNodes.redis (.clusterReplicate _ _)).bind fun r =>
    (KeepsNodes.orFail _ _).bind fun _ => ?_
  split
  · exact KeepsNodes.fail _
  · exact updateAfterSetNodeRole_keepsNodes _ _

theorem assignSlaves_keepsNodes (masterID masterIP clusterName : String) (ids : List String)
    (roles : List (String × List String)) :
    KeepsNodes (assignSlaves masterID masterIP clusterName ids roles) := by
  induction ids generalizing roles with
  | nil => exact KeepsNodes.pure _
  | cons id ids ih =>
    refine KeepsNodes.get.bind fun c => KeepsNodes.ite (ih _) ?_
    exact (setNodeAsSlave_keepsNodes _ _ _).bind fun _ =>
      KeepsNodes.bind (KeepsNodes.modify fun _ => by rfl) fun _ => ih _

theorem assignMasters_keepsNodes (clusterName : String) (n k : ℕ) (l : List ℕ)
    (roles : List (String × List String)) :
    KeepsNodes (assignMasters clusterName n k l roles) := by
  induction l generalizing roles with
  | nil => exact KeepsNodes.pure _
  | cons i l ih =>
    refine KeepsNodes.get.bind fun c => KeepsNodes.ite (ih _) ?_
    exact (KeepsNodes.modifyTopo _).bind fun _ => (assignSlaves_keepsNodes _ _ _ _ _).bind
      fun _ => ih _

theorem checkNodeTypeWithRetry_keepsNodes (node : RuntimeNode)
    (roles : List (String × List String)) (clusterName : String) (n : ℕ) :
    KeepsNodes (checkNodeTypeWithRetry node roles clusterName n) := by
  induction n with
  | zero => exact KeepsNodes.fail _
  | succ n ih =>
    refine KeepsNodes.bind ?_ fun ok => KeepsNodes.get.bind fun c =>
      KeepsNodes.ite (KeepsNodes.pure _) ih
    refine KeepsNodes.tryCatch ((updateAfterSetNodeRole_keepsNodes _ _).bind fun _ =>
      KeepsNodes.pure _) fun e => ?_
    cases e
    · exact KeepsNodes.pure _
    · exact KeepsNodes.throw _

theorem setAllNodeRole_keepsNodes (clusterName : String) :
    KeepsNodes (setAllNodeRole clusterName) := by
  refine KeepsNodes.bind ?_ fun roles => KeepsNodes.get.bind fun c => ?_
  · refine KeepsNodes.get.bind fun c => ?_
    simp only [Session.throw_bind]
    exact KeepsNodes.ite (KeepsNodes.throw _) (assignMasters_keepsNodes _ _ _ _ _)
  · refine KeepsNodes.tryCatch (KeepsNodes.forM fun node _ =>
      checkNodeTypeWithRetry_keepsNodes _ _ _ _) fun e => ?_
    cases e
    · exact KeepsNodes.fail _
    · exact KeepsNodes.throw _

/-! ### Slots -/

theorem assignSlotsToMasters_keepsNodes : KeepsNodes assignSlotsToMasters := by
  refine KeepsNodes.get.bind fun c => ?_
  simp only [Session.fail_bind]
  refine KeepsNodes.ite (KeepsNodes.fail _) (KeepsNodes.forM fun x _ => ?_)
  split
  · exact KeepsNodes.fail _
  split
  · exact KeepsNodes.fail _
  · exact (KeepsNodes.redis (.clusterAddSlots _ _)).bind fun r => KeepsNodes.orFail _ _

theorem checkSlotCounts_keepsNodes (container : RuntimeNode) (clusterName : String) (n : ℕ) :
    KeepsNodes (checkSlotCounts container clusterName n) := by
  induction n with
  | zero => exact KeepsNodes.pure _
  | succ n ih =>
    exact (updateSlots_keepsNodes _ _).bind fun _ => KeepsNodes.get.bind fun c =>
      KeepsNodes.ite (KeepsNodes.pure _) (KeepsNodes.ite (KeepsNodes.pure _) ih)

theorem allocateSlots_keepsNodes (clusterName : String) :
    KeepsNodes (allocateSlots clusterName) := by
  refine KeepsNodes.get.bind fun c => ?_
  split
  · exact KeepsNodes.fail _
  · exact (updateSlots_keepsNodes _ _).bind fun _ => assignSlotsToMasters_keepsNodes.bind fun _ =>
      KeepsNodes.get.bind fun c => KeepsNodes.forM fun _ _ => checkSlotCounts_keepsNodes _ _ _

/-- Printing writes nothing. -/
theorem printClusterNodesInfo_keeps (I : Manager → Prop) :
    Session.Keeps I printClusterNodesInfo := by
  refine Session.Keeps.get_bind fun c hc => ?_
  split
  · exact Session.Keeps.fail _ _
  · exact (Session.Keeps.lift _).bind fun r => (Session.Keeps.orFail _ _).bind fun _ =>
      Session.Keeps.pure _

/-! ### The number of slots -/

theorem calculateSlots_cons (r : SlotRange) (ranges : List SlotRange) :
    calculateSlots (r :: ranges) = r.stop - r.start + 1 + calculateSlots ranges := rfl

theorem calculateSlots_le (ranges : List SlotRange) :
    calculateSlots ranges ≤ ((ranges.map SlotRange.size).sum : ℕ) := by
  induction ranges with
  | nil => exact le_refl _
  | cons r ranges ih =>
    rw [calculateSlots_cons, List.map_cons, List.sum_cons, Nat.cast_add, SlotRange.size]
    omega

/-- **The total is the number of slots** unless a range is written backwards. -/
theorem calculateSlots_eq_iff (ranges : List SlotRange) :
    calculateSlots ranges = ((ranges.map SlotRange.size).sum : ℕ) ↔
      ∀ r ∈ ranges, r.start ≤ r.stop + 1 := by
  induction ranges with
  | nil => simp [calculateSlots]
  | cons r ranges ih =>
    have hle := calculateSlots_le ranges
    rw [calculateSlots_cons, List.map_cons, List.sum_cons, Nat.cast_add, List.forall_mem_cons, ← ih,
      SlotRange.size]
    omega

/-! ### The masters that a reply shows -/

section Masters

variable {σ : Type} {h : Handler RedisCmd RedisCmd.Reply σ} {m m' : Manager} {s s' : σ}

/-- The nodes of the cluster in a reply. -/
def shownNodes (base : BaseNodeManager) (clusterName text : String) : List ClusterNode :=
  (parseClusterNodeLines (Text.split '\n' text) fun ip =>
    ((base.getNodeByHost ip).map fun node => decide (node.clusterName = clusterName)).getD
      false).1.map fun n => { n with clusterName := clusterName }

/-- How many masters of the cluster a reply shows. -/
def shownMasters (base : BaseNodeManager) (clusterName text : String) : ℕ :=
  ((shownNodes base clusterName text).filter (·.nodeType = .master)).length

/-- The text that a request is answered with, if it is `CLUSTER NODES`. -/
def shownText (h : Handler RedisCmd RedisCmd.Reply σ) : RedisCmd × σ → Option String
  | (.clusterNodes addr, s) => (h s (.clusterNodes addr)).1.toOption
  | _ => none

/-- The last text that `CLUSTER NODES` has been answered with. -/
def lastShown (h : Handler RedisCmd RedisCmd.Reply σ) : List (RedisCmd × σ) → Option String
  | [] => none
  | x :: l => (lastShown h l).or (shownText h x)

theorem lastShown_append (l l' : List (RedisCmd × σ)) :
    lastShown h (l ++ l') = (lastShown h l').or (lastShown h l) := by
  induction l with
  | nil => simp [lastShown]
  | cons x l ih => rw [List.cons_append, lastShown, lastShown, ih, Option.or_assoc]

/-- Forgetting nodes tells nothing. -/
theorem lastShown_of_forget {l : List (RedisCmd × σ)}
    (hl : ∀ x ∈ l, ∃ addr id, x.1 = .clusterForget addr id) : lastShown h l = none := by
  induction l with
  | nil => rfl
  | cons x l ih =>
    obtain ⟨addr, id, hx⟩ := hl x List.mem_cons_self
    obtain ⟨c, s⟩ := x
    obtain rfl : c = _ := hx
    rw [lastShown, ih fun y hy => hl y (List.mem_cons_of_mem _ hy)]
    rfl

/-- Where Redis is when the failing nodes of a reply have been forgotten. -/
def afterForget (h : Handler RedisCmd RedisCmd.Reply σ) (base : BaseNodeManager)
    (clusterName text : String) (s : σ) : σ :=
  match base.nodes.find? (·.clusterName = clusterName) with
  | none => s
  | some node =>
    (parseClusterNodeLines (Text.split '\n' text) fun ip =>
      ((base.getNodeByHost ip).map fun node => decide (node.clusterName = clusterName)).getD
        false).2.foldl (fun s id => (h s (.clusterForget node.clientConnAddr id)).2) s

theorem exec_clusterForget (addr id : String) : Session.exec h (do
      let _ ← ManagerM.redis (.clusterForget addr id)
      return ⟨⟩ : ManagerM PUnit) m s = ((.ok ⟨⟩, m), (h s (.clusterForget addr id)).2) := rfl

theorem forM_clusterForget (addr : String) (ids : List String) :
    Session.exec h (forM ids fun id => do
        let _ ← ManagerM.redis (.clusterForget addr id)
        return ⟨⟩ : ManagerM PUnit) m s =
      ((.ok ⟨⟩, m), ids.foldl (fun s id => (h s (.clusterForget addr id)).2) s) ∧
    ∀ x ∈ Session.sent h (forM ids fun id => do
        let _ ← ManagerM.redis (.clusterForget addr id)
        return ⟨⟩ : ManagerM PUnit) m s, ∃ addr id, x.1 = .clusterForget addr id := by
  induction ids generalizing s with
  | nil => exact ⟨rfl, by simp⟩
  | cons id ids ih =>
    obtain ⟨hexec, hsent⟩ := ih (s := (h s (.clusterForget addr id)).2)
    refine ⟨?_, ?_⟩
    · rw [List.forM_cons, Session.exec_bind_of_ok (exec_clusterForget addr id), hexec]
      rfl
    · rw [List.forM_cons, Session.sent_bind_of_ok (exec_clusterForget addr id)]
      intro x hx
      rcases List.mem_append.mp hx with hx | hx
      · obtain rfl : x = (.clusterForget addr id, s) := List.mem_singleton.mp hx
        exact ⟨addr, id, rfl⟩
      · exact hsent x hx

/-- Reading a reply returns the nodes it shows. -/
theorem exec_parseRedisClusterNodes (text clusterName : String) :
    Session.exec h (parseRedisClusterNodes text clusterName) m s =
        ((.ok (shownNodes m.nodeManager clusterName text), m),
          afterForget h m.nodeManager clusterName text s) ∧
      ∀ x ∈ Session.sent h (parseRedisClusterNodes text clusterName) m s,
        ∃ addr id, x.1 = .clusterForget addr id := by
  rw [parseRedisClusterNodes, Session.exec_bind, Session.exec_get, Session.sent_bind,
    Session.exec_get, Session.sent_get, List.nil_append]
  dsimp only
  have hforget : ∀ ids, Session.exec h (forgetFailedClusterNodes clusterName ids) m s =
        ((.ok ⟨⟩, m), match m.nodeManager.nodes.find? (·.clusterName = clusterName) with
          | none => s
          | some node =>
            ids.foldl (fun s id => (h s (.clusterForget node.clientConnAddr id)).2) s) ∧
      ∀ x ∈ Session.sent h (forgetFailedClusterNodes clusterName ids) m s,
        ∃ addr id, x.1 = .clusterForget addr id := by
    intro ids
    rw [forgetFailedClusterNodes, Session.exec_bind, Session.exec_get, Session.sent_bind,
      Session.exec_get, Session.sent_get, List.nil_append]
    dsimp only
    cases hfind : m.nodeManager.nodes.find? (·.clusterName = clusterName) with
    | none => exact ⟨rfl, by simp⟩
    | some node => exact forM_clusterForget _ _
  split
  · obtain ⟨hexec, hsent⟩ := hforget (parseClusterNodeLines (Text.split '\n' text) fun ip =>
      ((m.nodeManager.getNodeByHost ip).map fun node =>
        decide (node.clusterName = clusterName)).getD false).2
    refine ⟨?_, ?_⟩
    · rw [Session.exec_bind_of_ok hexec]
      rfl
    · rw [Session.sent_bind_of_ok hexec, Session.sent_pure, List.append_nil]
      exact hsent
  · rename_i hnone
    rw [not_not] at hnone
    refine ⟨?_, by simp⟩
    rw [afterForget, hnone, Session.exec_pure]
    split <;> rfl

section Asked

variable {loginNode : RuntimeNode} (hne : m.nodeManager.nodes ≠ [])

include hne

/-- **A reply is read**, and the failing nodes it shows are forgotten. -/
theorem getClusterNodes_of_ok (clusterName : String) {text : String}
    (hr : (h s (.clusterNodes loginNode.clientConnAddr)).1 = .ok text) :
    Session.exec h (getClusterNodes loginNode clusterName) m s =
      ((.ok (shownNodes m.nodeManager clusterName text), m),
        afterForget h m.nodeManager clusterName text
          (h s (.clusterNodes loginNode.clientConnAddr)).2) ∧
      ∃ rest, Session.sent h (getClusterNodes loginNode clusterName) m s =
        (.clusterNodes loginNode.clientConnAddr, s) :: rest ∧
          ∀ x ∈ rest, ∃ addr id, x.1 = .clusterForget addr id := by
  obtain ⟨hparse, hforget⟩ := exec_parseRedisClusterNodes (h := h) (m := m)
    (s := (h s (.clusterNodes loginNode.clientConnAddr)).2) text clusterName
  refine ⟨?_, _, ?_, hforget⟩
  · rw [getClusterNodes, Session.exec_bind, Session.exec_get]
    simp only [if_neg hne]
    rw [Session.exec_bind, ManagerM.exec_redis, hr]
    simp only [Session.exec_bind, Session.exec_orFail_ok]
    exact hparse
  · rw [getClusterNodes, Session.sent_bind, Session.exec_get, Session.sent_get]
    simp only [if_neg hne]
    rw [Session.sent_bind, ManagerM.exec_redis, ManagerM.sent_redis, hr]
    simp only [Session.sent_bind, Session.sent_orFail, Session.exec_orFail_ok, List.nil_append]
    rfl

theorem getClusterNodes_of_error (clusterName : String) {err : String}
    (hr : (h s (.clusterNodes loginNode.clientConnAddr)).1 = .error err) :
    Session.exec h (getClusterNodes loginNode clusterName) m s =
      ((.error (.error ("failed to get cluster nodes: " ++ err)), m),
        (h s (.clusterNodes loginNode.clientConnAddr)).2) ∧
      Session.sent h (getClusterNodes loginNode clusterName) m s =
        [(.clusterNodes loginNode.clientConnAddr, s)] := by
  refine ⟨?_, ?_⟩
  · rw [getClusterNodes, Session.exec_bind, Session.exec_get]
    simp only [if_neg hne]
    rw [Session.exec_bind, ManagerM.exec_redis, hr]
    rfl
  · rw [getClusterNodes, Session.sent_bind, Session.exec_get, Session.sent_get]
    simp only [if_neg hne]
    rw [Session.sent_bind, ManagerM.exec_redis, ManagerM.sent_redis, hr]
    rfl

end Asked

/-- Without a container there is nobody to ask. -/
theorem getClusterNodes_of_nil (hnil : m.nodeManager.nodes = []) (loginNode : RuntimeNode)
    (clusterName : String) :
    Session.exec h (getClusterNodes loginNode clusterName) m s =
        ((.error (.error "no pods found: cluster not found"), m), s) ∧
      Session.sent h (getClusterNodes loginNode clusterName) m s = [] := by
  rw [getClusterNodes, Session.exec_bind, Session.exec_get, Session.sent_bind, Session.exec_get]
  simp only [Session.fail_bind]
  rw [if_pos hnil]
  exact ⟨rfl, rfl⟩

/-- Asking for the nodes returns what the reply shows. -/
theorem getClusterNodes_ok {loginNode : RuntimeNode} {clusterName : String}
    {nodes : List ClusterNode}
    (hok : Session.exec h (getClusterNodes loginNode clusterName) m s = ((.ok nodes, m'), s')) :
    ∃ text, lastShown h (Session.sent h (getClusterNodes loginNode clusterName) m s) = some text ∧
      nodes = shownNodes m.nodeManager clusterName text ∧ m' = m := by
  by_cases hne : m.nodeManager.nodes = []
  · rw [(getClusterNodes_of_nil hne loginNode clusterName).1] at hok
    cases hok
  rcases hr : (h s (.clusterNodes loginNode.clientConnAddr)).1 with err | text
  · rw [(getClusterNodes_of_error hne clusterName hr).1] at hok
    cases hok
  · obtain ⟨hexec, rest, hsent, hforget⟩ := getClusterNodes_of_ok hne clusterName hr
    rw [hexec] at hok
    cases hok
    refine ⟨text, ?_, rfl, rfl⟩
    rw [hsent, lastShown, lastShown_of_forget hforget, shownText, hr]
    rfl

/-! ### The nodes that have been met -/

/-- File a node that is not known yet. -/
def Topology.fileNew (t : Topology) (node : ClusterNode) : Topology :=
  if (t.nodes node.id).isNone then t.addMetNode node else t

/-- **Meeting the nodes** files those of the reply that are not known. -/
theorem exec_updateAfterMeet {loginNode : RuntimeNode} (clusterName : String) {text : String}
    (hnum : m.nodeManager.num ≠ 0) (hne : m.nodeManager.nodes ≠ [])
    (hr : (h s (.clusterNodes loginNode.clientConnAddr)).1 = .ok text) :
    (Session.exec h (updateAfterMeet loginNode clusterName) m s).1.1 = .ok ⟨⟩ ∧
      (Session.exec h (updateAfterMeet loginNode clusterName) m s).1.2.topo =
        ((shownNodes m.nodeManager clusterName text).foldl Topology.fileNew m.topo).sortInfo := by
  have hfile : ∀ (l : List ClusterNode) (c : Manager) (s : σ), ∃ c' : Manager,
      Session.exec h (forM l fun node => do
        let c ← get
        if (c.topo.nodes node.id).isNone then
          modify fun c =>
            { c with met := Function.update c.met node.ip true, topo := c.topo.addMetNode node }
        : ManagerM PUnit) c s = ((.ok ⟨⟩, c'), s) ∧ c'.topo = l.foldl Topology.fileNew c.topo := by
    intro l
    induction l with
    | nil => exact fun c s => ⟨c, rfl, rfl⟩
    | cons node l ih =>
      intro c s
      rw [List.forM_cons, Session.exec_bind, Session.exec_bind, Session.exec_get]
      dsimp only
      by_cases hnew : (c.topo.nodes node.id).isNone
      · rw [if_pos hnew, Session.exec_modify]
        obtain ⟨c', hexec, htopo⟩ := ih
          { c with met := Function.update c.met node.ip true, topo := c.topo.addMetNode node } s
        refine ⟨c', hexec, ?_⟩
        rw [htopo, List.foldl_cons, Topology.fileNew, if_pos hnew]
      · rw [if_neg hnew]
        obtain ⟨c', hexec, htopo⟩ := ih c s
        refine ⟨c', hexec, ?_⟩
        rw [htopo, List.foldl_cons, Topology.fileNew, if_neg hnew]
  obtain ⟨c', hexec, htopo⟩ := hfile (shownNodes m.nodeManager clusterName text) m
    (afterForget h m.nodeManager clusterName text (h s (.clusterNodes loginNode.clientConnAddr)).2)
  have hrun : Session.exec h (updateAfterMeet loginNode clusterName) m s =
      ((.ok ⟨⟩, { c' with topo := c'.topo.sortInfo }), afterForget h m.nodeManager clusterName text
        (h s (.clusterNodes loginNode.clientConnAddr)).2) := by
    rw [updateAfterMeet, Session.exec_bind, Session.exec_get]
    simp only [if_neg hnum]
    rw [Session.exec_bind_of_ok (getClusterNodes_of_ok hne clusterName hr).1,
      Session.exec_bind_of_ok hexec]
    rfl
  rw [hrun, ← htopo]
  exact ⟨rfl, rfl⟩

/-! ### The masters that are known -/

/-- Noting the roles notes each master. -/
theorem buildMasterSlaveTopology_ok {masters slaves : List ClusterNode}
    (hok : Session.exec h (buildMasterSlaveTopology masters slaves) m s = ((.ok ⟨⟩, m'), s')) :
    m'.topo.masterIDs.length = m.topo.masterIDs.length + masters.length := by
  have hmasters : ∀ (l : List ClusterNode) (c : Manager), (l.foldl (fun c master =>
      { c with
        topo := c.topo.addMaster master.id
        masterToSlave := setEntry c.masterToSlave master.id [] }) c).topo.masterIDs.length =
      c.topo.masterIDs.length + l.length := by
    intro l
    induction l with
    | nil => exact fun c => rfl
    | cons master l ih =>
      intro c
      rw [List.foldl_cons, ih, List.length_cons]
      simp only [Topology.addMaster, List.length_append, List.length_singleton]
      omega
  rw [buildMasterSlaveTopology, Session.exec_bind_of_ok (Session.exec_forM_modify h m s _ _)] at hok
  obtain rfl : _ = m' := congrArg (fun r => r.1.2) hok
  -- the replicas are filed without a look at the masters, and sorting keeps their number
  refine Session.Keeps.exec (I := fun c : Manager => c.topo.masterIDs.length = _)
    (Session.Keeps.bind (Session.Keeps.forM fun slave _ => Session.Keeps.get_bind fun c hc => ?_)
      fun _ => Session.Keeps.modify fun c hc => ?_) (hmasters masters m)
  · simp only [Session.fail_bind]
    split
    · exact Session.Keeps.fail _ _
    · exact Session.Keeps.modify fun _ hm => hm
  · exact (List.length_insertionSort _ _).trans hc

theorem sent_buildMasterSlaveTopology (masters slaves : List ClusterNode) :
    Session.sent h (buildMasterSlaveTopology masters slaves) m s = [] := by
  refine Session.Sends.sent_eq_nil ?_
  refine (Session.Sends.forM fun master _ => Session.Sends.modify _).bind fun _ =>
    (Session.Sends.forM fun slave _ => Session.Sends.get.bind fun c => ?_).bind fun _ =>
      Session.Sends.modify _
  simp only [Session.fail_bind]
  split
  · exact Session.Sends.fail _
  · exact Session.Sends.modify _

/-- **The masters that are known are those of the last reply.** -/
theorem updateAfterSetNodeRole_ok {loginNode : RuntimeNode} {clusterName : String}
    (hnum : m.nodeManager.num ≠ 0)
    (hok : Session.exec h (updateAfterSetNodeRole loginNode clusterName) m s =
      ((.ok ⟨⟩, m'), s')) :
    ∃ text, lastShown h (Session.sent h (updateAfterSetNodeRole loginNode clusterName) m s) =
        some text ∧
      m'.topo.masterIDs.length = shownMasters m.nodeManager clusterName text := by
  rw [updateAfterSetNodeRole, Session.exec_bind, Session.exec_modify] at hok
  rw [updateAfterSetNodeRole, Session.sent_bind, Session.exec_modify, Session.sent_modify]
  simp only [List.nil_append] at hok ⊢
  rw [Session.exec_bind, Session.exec_get] at hok
  rw [Session.sent_bind, Session.exec_get, Session.sent_get]
  simp only [if_neg hnum, List.nil_append] at hok ⊢
  obtain ⟨nodes, m₁, s₁, hget, hok⟩ := Session.exec_bind_ok hok
  obtain ⟨text, hlast, hnodes, rfl⟩ := getClusterNodes_ok hget
  refine ⟨text, ?_, ?_⟩
  · -- the rest sends nothing
    rw [Session.sent_bind_of_ok hget, lastShown_append, hlast]
    split
    · rfl
    · rw [sent_buildMasterSlaveTopology]
      rfl
  · split at hok
    · rename_i hnil
      cases hok
      rw [shownMasters, ← hnodes, hnil]
      rfl
    · rw [buildMasterSlaveTopology_ok hok, shownMasters, ← hnodes]
      simp [Topology.resetMasters]

/-- Setting a node's role ends with a look at the masters. -/
theorem setNodeAsSlave_ok {masterIP slaveIP clusterName : String} (hnum : m.nodeManager.num ≠ 0)
    (hok : Session.exec h (setNodeAsSlave masterIP slaveIP clusterName) m s =
      ((.ok ⟨⟩, m'), s')) :
    ∃ text, lastShown h (Session.sent h (setNodeAsSlave masterIP slaveIP clusterName) m s) =
        some text ∧
      m'.topo.masterIDs.length = shownMasters m.nodeManager clusterName text := by
  rw [setNodeAsSlave, Session.exec_bind, Session.exec_get] at hok
  rw [setNodeAsSlave, Session.sent_bind, Session.exec_get, Session.sent_get, List.nil_append]
  dsimp only at hok ⊢
  split at hok
  · cases hok
  obtain ⟨r, m₁, s₁, hrepl, hok⟩ := Session.exec_bind_ok hok
  rw [Session.sent_bind_of_ok hrepl, lastShown_append]
  cases hrepl
  obtain ⟨_, m₁, s₁, hr, hok⟩ := Session.exec_bind_ok hok
  rw [Session.sent_bind_of_ok hr, Session.sent_orFail, List.nil_append]
  obtain ⟨rfl, rfl⟩ := Session.orFail_ok _ _ _ hr
  split at hok
  · cases hok
  obtain ⟨text, hlast, hlen⟩ := updateAfterSetNodeRole_ok hnum hok
  exact ⟨text, by rw [hlast]; rfl, hlen⟩

/-- The planner does not change which masters there are. -/
theorem collectSlotTasks_masterIDs (base : BaseNodeManager) (t : Topology) (clusterName : String) :
    (collectSlotTasks base t clusterName).topo.masterIDs = t.masterIDs := by
  have hrange : ∀ master v l s, (collectFromRange base master v l s).topo.masterIDs =
      s.topo.masterIDs := by
    intro master v l
    induction l with
    | nil => exact fun s => rfl
    | cons slot l ih =>
      intro s
      rw [collectFromRange]
      split
      · rfl
      split
      · rfl
      dsimp only
      split
      · exact Topology.addEmptySlots_masterIDs _ _ _
      · rw [ih]
        exact Topology.addEmptySlots_masterIDs _ _ _
  have hvisit : ∀ s id, (visitMaster base clusterName t.share s id).topo.masterIDs =
      s.topo.masterIDs := by
    intro s id
    rw [visitMaster]
    split
    · rfl
    split
    · rfl
    · exact List.foldlRecOn _ _ (motive := fun s' : PlanState =>
        s'.topo.masterIDs = s.topo.masterIDs) rfl fun s' hs' r _ => (hrange _ _ _ s').trans hs'
  exact List.foldlRecOn _ _ (motive := fun s : PlanState => s.topo.masterIDs = t.masterIDs) rfl
    fun s hs id _ => (hvisit s id).trans hs

/-- Moving the slots keeps what the planner keeps. -/
theorem migrateSlotsToEmptyNode_keeps {I : Manager → Prop} {clusterName : String}
    (hplan : ∀ c, I c →
      I { c with topo := (collectSlotTasks c.nodeManager c.topo clusterName).topo }) :
    Session.Keeps I (migrateSlotsToEmptyNode clusterName) := by
  refine Session.Keeps.get_bind fun c hc => ?_
  simp only [Session.fail_bind]
  split
  · exact Session.Keeps.fail _ _
  split
  · exact Session.Keeps.fail _ _
  refine Session.Keeps.bind (Session.Keeps.set (I := I) (hplan c hc)) fun _ => ?_
  split
  · exact Session.Keeps.pure _
  refine ((Session.Keeps.lift _).bind fun _ => Session.Keeps.pure _).bind fun _ => ?_
  split
  · exact ((Session.Keeps.lift _).bind fun _ => Session.Keeps.pure _).bind fun _ =>
      printClusterNodesInfo_keeps I
  · exact printClusterNodesInfo_keeps I

theorem migrateSlotsToEmptyNode_keepsNodes (clusterName : String) :
    KeepsNodes (migrateSlotsToEmptyNode clusterName) :=
  fun _ => migrateSlotsToEmptyNode_keeps fun _ hc => hc

theorem migrateSlotsToEmptyNode_masterIDs (clusterName : String) (l : List String) :
    Session.Keeps (fun c : Manager => c.topo.masterIDs = l)
      (migrateSlotsToEmptyNode clusterName) :=
  migrateSlotsToEmptyNode_keeps fun _ hc => (collectSlotTasks_masterIDs _ _ _).trans hc

end Masters

end ClusterManager
