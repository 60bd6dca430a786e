import ClusterManager.Model.Reports
import ClusterManager.Model.Roles

/-!
# When the roles are verified

When the roles have been given out, each node of the cluster is asked for them, up to ten
times, until its reply and the assignment are found equal. The comparison looks at the masters
and at how many replicas each of them has; which replicas these are, it does not look at. So a
reply is accepted when it *counts* the roles (`CountsRoles`), and that is less than to *show*
them (`ShowsRoles`): two masters that have got each other's replica pass.

What is read from a node ends with the first reply that counts the roles. The verification is
sound exactly if, at each node, that reply or one before it shows them, or if an error comes
first (`setAllNodeRole_sound_iff`).
-/

namespace ClusterManager

/-! ### What a reply says of the roles -/

/-- The masters of a reply. -/
def shownMasterIDs (nodes : List ClusterNode) : List String :=
  (nodes.filter (·.nodeType = .master)).map (·.id)

/-- The replicas of a master in a reply. -/
def shownReplicas (nodes : List ClusterNode) (masterID : String) : List String :=
  (nodes.filter fun n => n.nodeType = .slave ∧ n.masterID = masterID).map (·.id)

/-- Each replica of the reply has a master there. -/
def MastersShown (nodes : List ClusterNode) : Prop :=
  ∀ n ∈ nodes, n.nodeType = .slave → n.masterID ∈ shownMasterIDs nodes

instance (nodes : List ClusterNode) : Decidable (MastersShown nodes) :=
  inferInstanceAs (Decidable (∀ n ∈ nodes, _))

/-- The reply has the masters of the roles, each with as many replicas. -/
def CountsRoles (roles : List (String × List String)) (nodes : List ClusterNode) : Prop :=
  MastersShown nodes ∧ (∀ id ∈ shownMasterIDs nodes, id ∈ roles.map Prod.fst) ∧
    ∀ x ∈ roles, x.1 ∈ shownMasterIDs nodes ∧ (shownReplicas nodes x.1).length = x.2.length

instance (roles : List (String × List String)) (nodes : List ClusterNode) :
    Decidable (CountsRoles roles nodes) := inferInstanceAs (Decidable (_ ∧ _ ∧ _))

/-- The reply has the masters of the roles, each with its replicas. -/
def ShowsRoles (roles : List (String × List String)) (nodes : List ClusterNode) : Prop :=
  (∀ id, id ∈ shownMasterIDs nodes ↔ id ∈ roles.map Prod.fst) ∧
    ∀ x ∈ roles, ∀ id, id ∈ shownReplicas nodes x.1 ↔ id ∈ x.2

/-! ### The map that is built from a reply -/

/-- One more replica is noted. -/
def noteReplica (l : List (String × List String)) (n : ClusterNode) : List (String × List String) :=
  setEntry l n.masterID ((l.lookup n.masterID).getD [] ++ [n.id])

/-- The map of the roles that a reply tells. -/
def builtRoles (nodes : List ClusterNode) : List (String × List String) :=
  ((nodes.filter (·.nodeType = .slave)).foldl noteReplica
    ((nodes.filter (·.nodeType = .master)).foldl (fun l n => setEntry l n.id []) [])).map
      fun x => (x.1, x.2.insertionSort (· ≤ ·))

section Built

variable {l : List (String × List String)} {nodes : List ClusterNode} {id : String}

theorem lookup_foldl_master (masters : List ClusterNode) (l : List (String × List String)) :
    (masters.foldl (fun l n => setEntry l n.id []) l).lookup id =
      if id ∈ masters.map (·.id) then some [] else l.lookup id := by
  induction masters generalizing l with
  | nil => simp
  | cons n masters ih =>
    rw [List.foldl_cons, ih, List.map_cons]
    by_cases hid : id = n.id
    · rw [hid, lookup_setEntry_self]
      simp
    · rw [lookup_setEntry_of_ne hid]
      simp [hid]

theorem lookup_foldl_noteReplica (slaves : List ClusterNode) (l : List (String × List String))
    (hknown : ∀ n ∈ slaves, (l.lookup n.masterID).isSome) :
    (slaves.foldl noteReplica l).lookup id =
      (l.lookup id).map (· ++ (slaves.filter (·.masterID = id)).map (·.id)) := by
  induction slaves generalizing l with
  | nil => simp
  | cons n slaves ih =>
    have hsome : ∀ k, (l.lookup k).isSome → ((noteReplica l n).lookup k).isSome := by
      intro k hk
      rw [noteReplica]
      by_cases hkn : k = n.masterID
      · rw [hkn, lookup_setEntry_self]
        rfl
      · rwa [lookup_setEntry_of_ne hkn]
    rw [List.foldl_cons, ih _ fun n' hn' => hsome _ (hknown n' (List.mem_cons_of_mem _ hn'))]
    by_cases hid : id = n.masterID
    · obtain ⟨v, hv⟩ := Option.isSome_iff_exists.mp (hknown n List.mem_cons_self)
      rw [noteReplica, hid, lookup_setEntry_self, hv]
      simp
    · rw [noteReplica, lookup_setEntry_of_ne hid,
        List.filter_cons_of_neg (by simpa using Ne.symm hid)]

theorem nodup_foldl {f : List (String × List String) → ClusterNode → List (String × List String)}
    (hf : ∀ l n, (l.map Prod.fst).Nodup → ((f l n).map Prod.fst).Nodup) (nodes : List ClusterNode)
    (hl : (l.map Prod.fst).Nodup) : ((nodes.foldl f l).map Prod.fst).Nodup := by
  induction nodes generalizing l with
  | nil => exact hl
  | cons n nodes ih => exact ih (hf l n hl)

theorem nodup_builtRoles (nodes : List ClusterNode) : ((builtRoles nodes).map Prod.fst).Nodup := by
  rw [builtRoles, List.map_map]
  exact nodup_foldl (fun l n hl => nodup_keys_setEntry hl) _
    (nodup_foldl (fun l n hl => nodup_keys_setEntry hl) _ List.nodup_nil)

theorem lookup_map_snd (f : List String → List String) :
    (l.map fun x => (x.1, f x.2)).lookup id = (l.lookup id).map f := by
  induction l with
  | nil => rfl
  | cons x l ih =>
    rw [List.map_cons, List.lookup_cons, List.lookup_cons, ih]
    split <;> rfl

/-- **The map that is built** has the masters of the reply, each with its replicas in order. -/
theorem lookup_builtRoles (hshown : MastersShown nodes) :
    (builtRoles nodes).lookup id =
      if id ∈ shownMasterIDs nodes then
        some ((shownReplicas nodes id).insertionSort (· ≤ ·))
      else none := by
  have hmasters : ∀ k, (((nodes.filter (·.nodeType = .master)).foldl
      (fun l n => setEntry l n.id []) []).lookup k) =
        if k ∈ shownMasterIDs nodes then some [] else none := fun k => lookup_foldl_master _ _
  have hreplicas : ((nodes.filter (·.nodeType = .slave)).filter (·.masterID = id)).map (·.id) =
      shownReplicas nodes id := by
    rw [List.filter_filter, shownReplicas]
    refine congrArg (List.map _) (List.filter_congr fun n _ => ?_)
    rw [Bool.decide_and, Bool.and_comm]
  rw [builtRoles, lookup_map_snd, lookup_foldl_noteReplica, hmasters, hreplicas]
  · split <;> rfl
  · intro n hn
    obtain ⟨hn, hslave⟩ := List.mem_filter.mp hn
    rw [hmasters, if_pos (hshown n hn (of_decide_eq_true hslave))]
    rfl

theorem mem_keys_builtRoles (hshown : MastersShown nodes) :
    id ∈ (builtRoles nodes).map Prod.fst ↔ id ∈ shownMasterIDs nodes := by
  rw [← isSome_lookup_iff, lookup_builtRoles hshown]
  split <;> simp_all

theorem equalClusterNodeType_iff {a b : List (String × List String)} :
    equalClusterNodeType a b ↔
      a.length = b.length ∧ ∀ x ∈ a, ∃ v, b.lookup x.1 = some v ∧ v.length = x.2.length := by
  rw [equalClusterNodeType, Bool.and_eq_true, decide_eq_true_iff, List.all_eq_true]
  refine and_congr_right fun _ => forall₂_congr fun x _ => ?_
  rcases b.lookup x.1 with _ | v <;> simp

/-- **What the comparison looks at.** -/
theorem equalClusterNodeType_builtRoles {roles : List (String × List String)}
    (hroles : (roles.map Prod.fst).Nodup) (hshown : MastersShown nodes) :
    equalClusterNodeType roles (builtRoles nodes) ↔ CountsRoles roles nodes := by
  have hentry : ∀ x : String × List String,
      (∃ v, (builtRoles nodes).lookup x.1 = some v ∧ v.length = x.2.length) ↔
        x.1 ∈ shownMasterIDs nodes ∧ (shownReplicas nodes x.1).length = x.2.length := by
    intro x
    rw [lookup_builtRoles hshown]
    by_cases hx : x.1 ∈ shownMasterIDs nodes
    · simp [hx]
    · simp [hx]
  rw [equalClusterNodeType_iff, CountsRoles]
  refine (and_congr_right fun _ => forall₂_congr fun x _ => hentry x).trans ?_
  constructor
  · rintro ⟨hlen, hall⟩
    refine ⟨hshown, ?_, hall⟩
    -- the masters of the roles are among those of the reply, and as many
    have hsub : roles.map Prod.fst ⊆ (builtRoles nodes).map Prod.fst := by
      intro id hid
      obtain ⟨x, hx, rfl⟩ := List.mem_map.mp hid
      exact (mem_keys_builtRoles hshown).mpr (hall x hx).1
    have hperm := (List.subperm_of_subset hroles hsub).perm_of_length_le (by simp [hlen])
    intro id hid
    exact hperm.mem_iff.mpr ((mem_keys_builtRoles hshown).mpr hid)
  · rintro ⟨-, hback, hall⟩
    refine ⟨?_, hall⟩
    have hperm : (roles.map Prod.fst).Perm ((builtRoles nodes).map Prod.fst) := by
      refine (List.perm_ext_iff_of_nodup hroles (nodup_builtRoles nodes)).mpr fun id => ?_
      rw [mem_keys_builtRoles hshown]
      refine ⟨fun hid => ?_, hback id⟩
      obtain ⟨x, hx, rfl⟩ := List.mem_map.mp hid
      exact (hall x hx).1
    simpa using hperm.length_eq

end Built

/-! ### One look -/

section Look

variable {σ : Type} {h : Handler RedisCmd RedisCmd.Reply σ} {m : Manager} {s : σ}

/-- What one replica does to the memory, unless its master is not there. -/
def fileReplica (slave : ClusterNode) : ManagerM PUnit := do
  let c ← get
  if !c.topo.masterSet slave.masterID then
    Session.fail s!"master node {slave.masterID} not found for slave {slave.id}"
  modify fun c => { c with masterToSlave := noteReplica c.masterToSlave slave }

theorem fileReplica_of_known {n : ClusterNode} (hn : m.topo.masterSet n.masterID = true) :
    Session.exec h (fileReplica n) m s =
      ((.ok ⟨⟩, { m with masterToSlave := noteReplica m.masterToSlave n }), s) := by
  rw [fileReplica, Session.exec_bind, Session.exec_get]
  simp only [hn, Bool.not_true, Bool.false_eq_true, if_false]
  rfl

theorem fileReplica_of_unknown {n : ClusterNode} (hn : m.topo.masterSet n.masterID = false) :
    ∃ e, Session.exec h (fileReplica n) m s = ((.error (.error e), m), s) := by
  rw [fileReplica, Session.exec_bind, Session.exec_get]
  simp only [hn, Bool.not_false, if_true]
  exact ⟨_, rfl⟩

/-- Replicas whose masters are all there are noted one after the other. -/
theorem exec_forM_fileReplica (slaves : List ClusterNode)
    (hknown : ∀ n ∈ slaves, m.topo.masterSet n.masterID = true) :
    Session.exec h (forM slaves fileReplica) m s =
      ((.ok ⟨⟩, { m with masterToSlave := slaves.foldl noteReplica m.masterToSlave }), s) := by
  induction slaves generalizing m with
  | nil => rfl
  | cons n slaves ih =>
    rw [List.forM_cons,
      Session.exec_bind_of_ok (fileReplica_of_known (hknown n List.mem_cons_self))]
    exact ih (m := { m with masterToSlave := noteReplica m.masterToSlave n })
      fun n' hn' => hknown n' (List.mem_cons_of_mem _ hn')

/-- A replica whose master is not there is an error. -/
theorem exec_forM_fileReplica_error (slaves : List ClusterNode)
    (hunknown : ∃ n ∈ slaves, m.topo.masterSet n.masterID = false) :
    ∃ e m', Session.exec h (forM slaves fileReplica) m s = ((.error (.error e), m'), s) := by
  induction slaves generalizing m with
  | nil =>
    obtain ⟨n, hn, -⟩ := hunknown
    cases hn
  | cons n slaves ih =>
    rw [List.forM_cons]
    cases hn : m.topo.masterSet n.masterID with
    | true =>
      obtain ⟨n', hn', hset⟩ := hunknown
      rw [Session.exec_bind_of_ok (fileReplica_of_known hn)]
      refine ih ⟨n', (List.mem_cons.mp hn').resolve_left ?_, hset⟩
      rintro rfl
      cases hn.symm.trans hset
    | false =>
      obtain ⟨e, hexec⟩ := fileReplica_of_unknown (h := h) (s := s) hn
      exact ⟨e, m, by rw [Session.exec_bind, hexec]⟩

/-- The memory when the masters of a reply have been noted. -/
theorem foldl_masters (masters : List ClusterNode) (m : Manager) :
    (masters.foldl (fun c master =>
        { c with
          topo := c.topo.addMaster master.id
          masterToSlave := setEntry c.masterToSlave master.id [] }) m).masterToSlave =
      masters.foldl (fun l n => setEntry l n.id []) m.masterToSlave ∧
    ∀ id, (masters.foldl (fun c master =>
        { c with
          topo := c.topo.addMaster master.id
          masterToSlave := setEntry c.masterToSlave master.id [] }) m).topo.masterSet id =
      (decide (id ∈ masters.map (·.id)) || m.topo.masterSet id) := by
  induction masters generalizing m with
  | nil => exact ⟨rfl, fun id => by simp⟩
  | cons n masters ih =>
    obtain ⟨hroles, hset⟩ := ih { m with
      topo := m.topo.addMaster n.id
      masterToSlave := setEntry m.masterToSlave n.id [] }
    refine ⟨hroles, fun id => ?_⟩
    rw [List.foldl_cons, hset]
    simp only [Topology.addMaster, Function.update_apply, List.map_cons, List.mem_cons]
    by_cases hid : id = n.id <;> simp [hid]

/-- **Noting the roles of a reply** when none are known. -/
theorem exec_buildMasterSlaveTopology (nodes : List ClusterNode) (hroles : m.masterToSlave = [])
    (hset : m.topo.masterSet = fun _ => false) :
    ∃ r m', Session.exec h (buildMasterSlaveTopology (nodes.filter (·.nodeType = .master))
        (nodes.filter (·.nodeType = .slave))) m s = ((r, m'), s) ∧
      if MastersShown nodes then r = .ok ⟨⟩ ∧ m'.masterToSlave = builtRoles nodes
      else ∃ e, r = .error (.error e) := by
  obtain ⟨hfold, hknown⟩ := foldl_masters (nodes.filter (·.nodeType = .master)) m
  have hknown : ∀ id, _ = decide (id ∈ shownMasterIDs nodes) := fun id =>
    (hknown id).trans (by rw [hset, Bool.or_false]; rfl)
  rw [hroles] at hfold
  have hbuild : ∀ masters slaves, buildMasterSlaveTopology masters slaves = (do
      forM masters fun master => modify fun c =>
        { c with
          topo := c.topo.addMaster master.id
          masterToSlave := setEntry c.masterToSlave master.id [] }
      forM slaves fileReplica
      modify fun c =>
        { c with
          masterToSlave := c.masterToSlave.map fun x => (x.1, x.2.insertionSort (· ≤ ·))
          topo := c.topo.sortMasters }) := fun _ _ => rfl
  rw [hbuild, Session.exec_bind_of_ok (Session.exec_forM_modify h m s _ _)]
  generalize (nodes.filter (·.nodeType = .master)).foldl _ m = m₁ at hfold hknown ⊢
  split
  · rename_i hshown
    have hmasters : ∀ n ∈ nodes.filter (·.nodeType = .slave),
        m₁.topo.masterSet n.masterID = true := by
      intro n hn
      obtain ⟨hn, hslave⟩ := List.mem_filter.mp hn
      rw [hknown]
      exact decide_eq_true (hshown n hn (of_decide_eq_true hslave))
    rw [Session.exec_bind_of_ok (exec_forM_fileReplica _ hmasters), Session.exec_modify]
    refine ⟨_, _, rfl, rfl, ?_⟩
    rw [builtRoles, ← hfold]
  · rename_i hshown
    simp only [MastersShown, not_forall] at hshown
    obtain ⟨n, hn, hslave, hmaster⟩ := hshown
    have hunknown : m₁.topo.masterSet n.masterID = false := by
      rw [hknown]
      exact decide_eq_false hmaster
    obtain ⟨e, m₂, hexec⟩ := exec_forM_fileReplica_error (h := h) (s := s)
      (nodes.filter (·.nodeType = .slave))
      ⟨n, List.mem_filter.mpr ⟨hn, decide_eq_true hslave⟩, hunknown⟩
    exact ⟨_, m₂, by rw [Session.exec_bind, hexec], e, rfl⟩

end Look

/-! ### What is read -/

section Reads

variable {σ : Type} (h : Handler RedisCmd RedisCmd.Reply σ)

/-- The node that a request has asked and the text that it was answered with. -/
def readBy : RedisCmd × σ → Option (String × String)
  | (.clusterNodes addr, s) => (h s (.clusterNodes addr)).1.toOption.map (addr, ·)
  | _ => none

/-- All that requests have read. -/
def reads (l : List (RedisCmd × σ)) : List (String × String) := l.filterMap (readBy h)

theorem reads_append (l l' : List (RedisCmd × σ)) : reads h (l ++ l') = reads h l ++ reads h l' :=
  List.filterMap_append

theorem reads_of_forget {l : List (RedisCmd × σ)}
    (hl : ∀ x ∈ l, ∃ addr id, x.1 = .clusterForget addr id) : reads h l = [] := by
  refine List.filterMap_eq_nil_iff.mpr fun x hx => ?_
  obtain ⟨addr, id, hcmd⟩ := hl x hx
  obtain ⟨c, s⟩ := x
  obtain rfl : c = _ := hcmd
  rfl

variable (base : BaseNodeManager) (clusterName addr : String)

/-- The text that one look reads. -/
def toldText (s : σ) : List String :=
  if base.num = 0 then [] else (h s (.clusterNodes addr)).1.toOption.toList

/-- The nodes that one look shows, unless it ends in an error, and where Redis is then. -/
def roleLook (s : σ) : Option (List ClusterNode) × σ :=
  if base.num = 0 then (some [], s)
  else match (h s (.clusterNodes addr)).1 with
    | .error _ => (none, (h s (.clusterNodes addr)).2)
    | .ok text =>
      (if MastersShown (shownNodes base clusterName text) then
        some (shownNodes base clusterName text)
        else none, afterForget h base clusterName text (h s (.clusterNodes addr)).2)

variable {h base clusterName addr} {m : Manager} {s : σ}

theorem mastersShown_of_roleLook {nodes : List ClusterNode}
    (hlook : (roleLook h base clusterName addr s).1 = some nodes) : MastersShown nodes := by
  rw [roleLook] at hlook
  split at hlook
  · cases hlook
    exact fun n hn => absurd hn List.not_mem_nil
  split at hlook
  · cases hlook
  · dsimp only at hlook
    split at hlook
    · rename_i hshown
      cases hlook
      exact hshown
    · cases hlook

variable (clusterName)

/-- **What one look does.** -/
theorem exec_updateAfterSetNodeRole (hne : m.nodeManager.nodes ≠ []) (node : RuntimeNode) :
    ∃ r m', Session.exec h (updateAfterSetNodeRole node clusterName) m s =
        ((r, m'), (roleLook h m.nodeManager clusterName node.clientConnAddr s).2) ∧
      m'.nodeManager = m.nodeManager ∧
      reads h (Session.sent h (updateAfterSetNodeRole node clusterName) m s) =
        (toldText h m.nodeManager node.clientConnAddr s).map (node.clientConnAddr, ·) ∧
      match (roleLook h m.nodeManager clusterName node.clientConnAddr s).1 with
      | some nodes => r = .ok ⟨⟩ ∧ m'.masterToSlave = builtRoles nodes
      | none => ∃ e, r = .error (.error e) := by
  have hkeeps := (updateAfterSetNodeRole_keepsNodes node clusterName m.nodeManager).exec
    (h := h) (s := s) rfl
  have hreset : ∀ f : PUnit → ManagerM PUnit,
      Session.exec h (modify (fun c => { c with
        masterToSlave := [], topo := c.topo.resetMasters }) >>= f) m s =
      Session.exec h (f ⟨⟩) { m with masterToSlave := [], topo := m.topo.resetMasters } s :=
    fun f => Session.exec_bind_of_ok (Session.exec_modify h m s _)
  rw [updateAfterSetNodeRole, hreset, Session.exec_bind_of_ok (Session.exec_get h _ s)] at hkeeps ⊢
  rw [Session.sent_bind_of_ok (Session.exec_modify h m s _), Session.sent_modify, List.nil_append,
    Session.sent_bind_of_ok (Session.exec_get h _ s), Session.sent_get, List.nil_append]
  dsimp only at hkeeps ⊢
  rw [toldText, roleLook]
  by_cases hnum : m.nodeManager.num = 0
  · rw [if_pos hnum, if_pos hnum, if_pos hnum]
    exact ⟨_, _, rfl, rfl, rfl, rfl, rfl⟩
  rw [if_neg hnum] at hkeeps
  rw [if_neg hnum, if_neg hnum, if_neg hnum]
  rcases hr : (h s (.clusterNodes node.clientConnAddr)).1 with err | text
  · obtain ⟨hget, hsent⟩ := getClusterNodes_of_error (h := h) (s := s)
      (m := { m with masterToSlave := [], topo := m.topo.resetMasters }) hne clusterName hr
    rw [Session.exec_bind, hget, Session.sent_bind, hget, hsent, List.append_nil]
    refine ⟨_, _, rfl, rfl, ?_, _, rfl⟩
    rw [reads, List.filterMap_cons, readBy, hr]
    rfl
  · obtain ⟨hget, rest, hsent, hforget⟩ := getClusterNodes_of_ok (h := h) (s := s)
      (m := { m with masterToSlave := [], topo := m.topo.resetMasters }) hne clusterName hr
    have hreads : reads h ((.clusterNodes node.clientConnAddr, s) :: rest) =
        [(node.clientConnAddr, text)] := by
      rw [reads, List.filterMap_cons, readBy, hr]
      exact congrArg _ (reads_of_forget h hforget)
    rw [Session.exec_bind_of_ok hget] at hkeeps ⊢
    rw [Session.sent_bind_of_ok hget, hsent, reads_append, hreads]
    dsimp only at hkeeps ⊢
    by_cases hnil : shownNodes m.nodeManager clusterName text = []
    · have hshown : MastersShown (shownNodes m.nodeManager clusterName text) := by
        rw [hnil]
        exact fun n hn => absurd hn List.not_mem_nil
      rw [if_pos hnil, if_pos hshown, hnil]
      exact ⟨_, _, rfl, rfl, rfl, rfl, rfl⟩
    rw [if_neg hnil] at hkeeps
    rw [if_neg hnil, sent_buildMasterSlaveTopology]
    obtain ⟨r, m', hbuild, hr'⟩ := exec_buildMasterSlaveTopology (h := h)
      (m := { m with masterToSlave := [], topo := m.topo.resetMasters })
      (s := afterForget h m.nodeManager clusterName text
        (h s (.clusterNodes node.clientConnAddr)).2)
      (shownNodes m.nodeManager clusterName text) rfl rfl
    rw [hbuild] at hkeeps
    refine ⟨r, m', hbuild, hkeeps, rfl, ?_⟩
    split at hr'
    · rename_i hshown
      rw [if_pos hshown]
      exact hr'
    · rename_i hshown
      rw [if_neg hshown]
      exact hr'

end Reads

/-! ### Looking at one node, and at all of them -/

section Survey

variable {σ : Type} (h : Handler RedisCmd RedisCmd.Reply σ) (base : BaseNodeManager)
  (clusterName : String) (roles : List (String × List String))

/-- Up to `n` looks at a node: the texts that are read, whether the last of them is accepted, and
where Redis is then. -/
def roleLooks (addr : String) : ℕ → σ → List String × Bool × σ
  | 0, s => ([], false, s)
  | n + 1, s =>
    let look := roleLook h base clusterName addr s
    if look.1.any fun nodes => CountsRoles roles nodes then (toldText h base addr s, true, look.2)
    else
      let rest := roleLooks addr n look.2
      (toldText h base addr s ++ rest.1, rest.2)

/-- Ten looks at each of the nodes: all that is read, unless a node is given up. -/
def roleSurvey : List RuntimeNode → σ → Option (List (String × String))
  | [], _ => some []
  | node :: rest, s =>
    let looks := roleLooks h base clusterName roles node.clientConnAddr 10 s
    if looks.2.1 then
      (roleSurvey rest looks.2.2).map (looks.1.map (node.clientConnAddr, ·) ++ ·)
    else none

variable {h base clusterName roles} {m : Manager} {s : σ}

/-- One look, which says whether it has succeeded. -/
def tryLook (node : RuntimeNode) (clusterName : String) : ManagerM Bool :=
  tryCatch (do updateAfterSetNodeRole node clusterName; return true) fun
    | .error _ => return false
    | .panic err => throw (.panic err)

theorem checkNodeTypeWithRetry_succ (node : RuntimeNode) (n : ℕ) :
    checkNodeTypeWithRetry node roles clusterName (n + 1) = (do
      let ok ← tryLook node clusterName
      let c ← get
      if ok ∧ equalClusterNodeType roles c.masterToSlave then return ⟨⟩
      checkNodeTypeWithRetry node roles clusterName n) := rfl

theorem exec_tryLook (hne : m.nodeManager.nodes ≠ []) (node : RuntimeNode) (clusterName : String) :
    ∃ m', Session.exec h (tryLook node clusterName) m s =
        ((.ok (roleLook h m.nodeManager clusterName node.clientConnAddr s).1.isSome, m'),
          (roleLook h m.nodeManager clusterName node.clientConnAddr s).2) ∧
      m'.nodeManager = m.nodeManager ∧
      (∀ nodes, (roleLook h m.nodeManager clusterName node.clientConnAddr s).1 = some nodes →
        m'.masterToSlave = builtRoles nodes) ∧
      reads h (Session.sent h (tryLook node clusterName) m s) =
        (toldText h m.nodeManager node.clientConnAddr s).map (node.clientConnAddr, ·) := by
  obtain ⟨r, m', hlook, hbase, hreads, hr⟩ :=
    exec_updateAfterSetNodeRole (h := h) (s := s) clusterName hne node
  refine ⟨m', ?_⟩
  rw [tryLook, Session.exec_tryCatch, Session.sent_tryCatch, Session.exec_bind, Session.sent_bind,
    hlook]
  rcases hl : (roleLook h m.nodeManager clusterName node.clientConnAddr s).1 with _ | nodes
  · rw [hl] at hr
    obtain ⟨e, rfl⟩ := hr
    refine ⟨rfl, hbase, fun nodes hn => (nomatch hn), ?_⟩
    rw [List.append_nil]
    exact (congrArg _ (List.append_nil _)).trans hreads
  · rw [hl] at hr
    obtain ⟨rfl, hbuilt⟩ := hr
    refine ⟨rfl, hbase, fun nodes' hn => Option.some.inj hn ▸ hbuilt, ?_⟩
    dsimp only [Session.exec_pure, Session.sent_pure]
    rw [List.append_nil, List.append_nil]
    exact hreads

variable (clusterName) (hroles : (roles.map Prod.fst).Nodup)

include hroles

/-- **Looking at one node** ends with the first look that counts the roles. -/
theorem exec_checkNodeTypeWithRetry (hne : m.nodeManager.nodes ≠ []) (node : RuntimeNode) (n : ℕ) :
    ∃ r m', Session.exec h (checkNodeTypeWithRetry node roles clusterName n) m s =
        ((r, m'), (roleLooks h m.nodeManager clusterName roles node.clientConnAddr n s).2.2) ∧
      m'.nodeManager = m.nodeManager ∧
      reads h (Session.sent h (checkNodeTypeWithRetry node roles clusterName n) m s) =
        (roleLooks h m.nodeManager clusterName roles node.clientConnAddr n s).1.map
          (node.clientConnAddr, ·) ∧
      if (roleLooks h m.nodeManager clusterName roles node.clientConnAddr n s).2.1 then r = .ok ⟨⟩
      else ∃ e, r = .error (.error e) := by
  induction n generalizing m s with
  | zero => exact ⟨_, m, rfl, rfl, rfl, _, rfl⟩
  | succ n ih =>
    obtain ⟨m₁, hlook, hbase, hbuilt, hreads⟩ :=
      exec_tryLook (h := h) (s := s) hne node clusterName
    rw [checkNodeTypeWithRetry_succ, Session.exec_bind_of_ok hlook, Session.sent_bind_of_ok hlook,
      reads_append, hreads, Session.exec_bind_of_ok (Session.exec_get h _ _),
      Session.sent_bind_of_ok (Session.exec_get h _ _), Session.sent_get, List.nil_append,
      roleLooks]
    -- the comparison is of what has been built from the reply that was accepted
    have haccept : ((roleLook h m.nodeManager clusterName node.clientConnAddr s).1.isSome ∧
        equalClusterNodeType roles m₁.masterToSlave) ↔
          (roleLook h m.nodeManager clusterName node.clientConnAddr s).1.any
            fun nodes => CountsRoles roles nodes := by
      rcases hl : (roleLook h m.nodeManager clusterName node.clientConnAddr s).1 with _ | nodes
      · simp
      · rw [hbuilt nodes hl,
          equalClusterNodeType_builtRoles hroles (mastersShown_of_roleLook hl)]
        simp
    by_cases hcounts : (roleLook h m.nodeManager clusterName node.clientConnAddr s).1.any
        fun nodes => CountsRoles roles nodes
    · dsimp only
      rw [if_pos (haccept.mpr hcounts), if_pos hcounts]
      refine ⟨_, m₁, rfl, hbase, ?_, rfl⟩
      rw [Session.sent_pure]
      exact List.append_nil _
    · dsimp only
      rw [if_neg (mt haccept.mp hcounts), if_neg hcounts, List.map_append]
      obtain ⟨r, m₂, hexec, hbase₂, hreads₂, hr⟩ := ih (m := m₁)
        (s := (roleLook h m.nodeManager clusterName node.clientConnAddr s).2) (by rwa [hbase])
      rw [hbase] at hexec hbase₂ hreads₂ hr
      exact ⟨r, m₂, hexec, hbase₂, congrArg _ hreads₂, hr⟩

/-- **Looking at the nodes of a list** goes on as long as none is given up. -/
theorem exec_forM_checkNodeTypeWithRetry (nodes : List RuntimeNode)
    (hne : nodes ≠ [] → m.nodeManager.nodes ≠ []) :
    ∃ r m' s', Session.exec h (forM nodes fun node =>
        checkNodeTypeWithRetry node roles clusterName 10) m s = ((r, m'), s') ∧
      match roleSurvey h m.nodeManager clusterName roles nodes s with
      | some log => r = .ok ⟨⟩ ∧ reads h (Session.sent h (forM nodes fun node =>
          checkNodeTypeWithRetry node roles clusterName 10) m s) = log
      | none => ∃ e, r = .error (.error e) := by
  induction nodes generalizing m s with
  | nil => exact ⟨_, m, s, rfl, rfl, rfl⟩
  | cons node nodes ih =>
    obtain ⟨r, m₁, hexec, hbase, hreads, hr⟩ := exec_checkNodeTypeWithRetry (h := h) (s := s)
      clusterName hroles (hne (List.cons_ne_nil _ _)) node 10
    rw [List.forM_cons, roleSurvey]
    split at hr
    · rename_i haccepted
      subst hr
      rw [if_pos haccepted, Session.exec_bind_of_ok hexec, Session.sent_bind_of_ok hexec,
        reads_append, hreads]
      obtain ⟨r, m₂, s₂, hrest, hend⟩ := ih (m := m₁)
        (s := (roleLooks h m.nodeManager clusterName roles node.clientConnAddr 10 s).2.2)
        (fun _ => by rw [hbase]; exact hne (List.cons_ne_nil _ _))
      refine ⟨r, m₂, s₂, hrest, ?_⟩
      rw [hbase] at hend
      rcases hlog : roleSurvey h m.nodeManager clusterName roles nodes
        (roleLooks h m.nodeManager clusterName roles node.clientConnAddr 10 s).2.2 with _ | log
      · rw [hlog] at hend
        exact hend
      · rw [hlog] at hend
        exact ⟨hend.1, congrArg _ hend.2⟩
    · rename_i hrefused
      obtain ⟨e, rfl⟩ := hr
      rw [if_neg hrefused, Session.exec_bind, hexec]
      exact ⟨_, m₁, _, rfl, e, rfl⟩

end Survey

/-! ### Giving out the roles -/

section Calls

variable {σ : Type} (h : Handler RedisCmd RedisCmd.Reply σ) (k : KnownNodes) (clusterName : String)

/-- Where Redis is when a node, by its address, has been made the replica of another one, unless
that ends in an error. -/
def afterSlave (s : σ) (x : String × String) : Option σ :=
  match k.nodeManager.getNodeByHost x.2, k.nodeManager.nodes with
  | some slave, login :: _ =>
    match h s (.clusterReplicate slave.clientConnAddr ((k.ipToID x.1).getD "")) with
    | (.error _, _) => none
    | (.ok _, s') =>
      let look := roleLook h k.nodeManager clusterName login.clientConnAddr s'
      if look.1.isSome then some look.2 else none
  | _, _ => none

/-- Where Redis is when all the roles have been set. -/
def afterSlaves (calls : List (String × String)) (s : σ) : Option σ :=
  calls.foldlM (afterSlave h k clusterName) s

variable {h} {m : Manager} {s : σ}

theorem afterSlave_of_ok {k : KnownNodes} {x : String × String} {slave login : RuntimeNode}
    {rest : List RuntimeNode} {s₁ s₂ : σ} {nodes : List ClusterNode}
    (hslave : k.nodeManager.getNodeByHost x.2 = some slave)
    (hlogin : k.nodeManager.nodes = login :: rest)
    (hset : h s (.clusterReplicate slave.clientConnAddr ((k.ipToID x.1).getD "")) = (.ok (), s₁))
    (hlook : roleLook h k.nodeManager clusterName login.clientConnAddr s₁ = (some nodes, s₂)) :
    afterSlave h k clusterName s x = some s₂ := by
  rw [afterSlave, hslave, hlogin]
  dsimp only
  rw [hset]
  dsimp only
  rw [hlook]
  rfl

theorem exec_setNodeAsSlave (x : String × String) :
    ∃ r m' s', Session.exec h (setNodeAsSlave x.1 x.2 clusterName) m s = ((r, m'), s') ∧
      match afterSlave h m.known clusterName s x with
      | some s₁ => r = .ok ⟨⟩ ∧ s' = s₁
      | none => ∃ e, r = .error (.error e) := by
  rw [setNodeAsSlave, Session.exec_bind_of_ok (Session.exec_get h _ _), afterSlave,
    show m.known.nodeManager = m.nodeManager from rfl,
    show m.known.ipToID = m.topo.ipToID from rfl]
  rcases m.nodeManager.getNodeByHost x.2 with _ | slave
  · exact ⟨_, m, s, rfl, _, rfl⟩
  dsimp only
  rw [Session.exec_bind, ManagerM.exec_redis]
  rcases hrep : h s (.clusterReplicate slave.clientConnAddr ((m.topo.ipToID x.1).getD "")) with
    ⟨err | _, s₁⟩
  · refine ⟨_, m, s₁, rfl, ?_⟩
    rcases m.nodeManager.nodes with _ | ⟨login, nodes⟩
    · exact ⟨_, rfl⟩
    · dsimp only
      rw [hrep]
      exact ⟨_, rfl⟩
  dsimp only
  rw [Session.exec_bind, Session.exec_orFail_ok]
  rcases hnodes : m.nodeManager.nodes with _ | ⟨login, nodes⟩
  · exact ⟨_, m, s₁, rfl, _, rfl⟩
  obtain ⟨r, m', hlook, -, -, hr⟩ := exec_updateAfterSetNodeRole (h := h) (m := m) (s := s₁)
    clusterName (by rw [hnodes]; exact List.cons_ne_nil _ _) login
  refine ⟨r, m', _, hlook, ?_⟩
  dsimp only
  rw [hrep]
  dsimp only
  rcases hl : (roleLook h m.nodeManager clusterName login.clientConnAddr s₁).1 with _ | shown
  · rw [hl] at hr
    exact hr
  · rw [hl] at hr
    exact ⟨hr.1, rfl⟩

theorem exec_setSlaves (calls : List (String × String)) :
    ∃ r m' s', Session.exec h (setSlaves clusterName calls) m s = ((r, m'), s') ∧
      match afterSlaves h m.known clusterName calls s with
      | some s₁ => r = .ok ⟨⟩ ∧ s' = s₁
      | none => ∃ e, r = .error (.error e) := by
  induction calls generalizing m s with
  | nil => exact ⟨_, m, s, rfl, rfl, rfl⟩
  | cons x calls ih =>
    obtain ⟨r, m₁, s₁, hexec, hr⟩ := exec_setNodeAsSlave (h := h) (m := m) (s := s) clusterName x
    rw [setSlaves, List.forM_cons, afterSlaves, List.foldlM_cons]
    rcases hafter : afterSlave h m.known clusterName s x with _ | s₂
    · rw [hafter] at hr
      obtain ⟨e, rfl⟩ := hr
      exact ⟨_, m₁, s₁, by rw [Session.exec_bind, hexec], e, rfl⟩
    · rw [hafter] at hr
      obtain ⟨rfl, rfl⟩ := hr
      -- what the next call rests on is as before
      obtain ⟨-, -, -, hknown⟩ := setNodeAsSlave_couples (h := h) (m := m) x.1 x.2 clusterName
        m m s ⟨rfl, rfl, rfl⟩
      rw [hexec] at hknown
      have hknown : m₁.known = m.known := (hknown ⟨⟩ rfl).left
      rw [Session.exec_bind_of_ok hexec, ← hknown]
      exact ih

end Calls

/-! ### When the verification is sound -/

/-- Look at all the nodes of a cluster. -/
def verifyNodeTypeSet (roles : List (String × List String)) (clusterName : String) :
    ManagerM PUnit := do
  let c ← get
  forM (c.nodeManager.nodes.filter (·.clusterName = clusterName)) fun node =>
    checkNodeTypeWithRetry node roles clusterName 10

section Sound

variable {σ : Type} (h : Handler RedisCmd RedisCmd.Reply σ) (m : Manager) (clusterName : String)
  (s : σ)

/-- What is read from the nodes when the roles of the plan are given out and then looked at,
unless one of the two ends in an error. -/
def roleReads : Option (List (String × String)) :=
  if m.nodesPerShard = 0 then none
  else (afterSlaves h m.known clusterName (rolePlan m clusterName).calls s).bind
    (roleSurvey h m.nodeManager clusterName (rolePlan m clusterName).roles
      (m.nodeManager.nodes.filter (·.clusterName = clusterName)))

/-- The roles are set only if each node of the cluster has shown them. -/
def SetsRolesSoundly : Prop :=
  ∀ m' s', Session.exec h (setAllNodeRole clusterName) m s = ((.ok ⟨⟩, m'), s') →
    ∃ roles m₁ s₁, Session.exec h (assignMastersAndSlaves clusterName) m s =
        ((.ok roles, m₁), s₁) ∧
      ∀ node ∈ m.nodeManager.nodes, node.clusterName = clusterName →
        ∃ text, (node.clientConnAddr, text) ∈
            reads h (Session.sent h (verifyNodeTypeSet roles clusterName) m₁ s₁) ∧
          ShowsRoles roles (shownNodes m.nodeManager clusterName text)

/-- Of the replies that each node of the cluster gives up to the first one that counts the roles
of the plan, one shows them. -/
def RolesConfirmed : Prop :=
  ∀ log, roleReads h m clusterName s = some log →
    ∀ node ∈ m.nodeManager.nodes, node.clusterName = clusterName →
      ∃ text, (node.clientConnAddr, text) ∈ log ∧
        ShowsRoles (rolePlan m clusterName).roles (shownNodes m.nodeManager clusterName text)

variable {h m clusterName s}

/-- Setting the roles is to give them out and to look at them. -/
theorem setAllNodeRole_eq (clusterName : String) :
    setAllNodeRole clusterName = (do
      let roles ← assignMastersAndSlaves clusterName
      tryCatch (verifyNodeTypeSet roles clusterName) fun
        | .error _ => Session.fail "sync failed"
        | .panic err => throw (.panic err)) := rfl

/-- The assignment, by the calls of its plan. -/
theorem exec_assignMastersAndSlaves_of_plan (clusterName : String) (hshard : m.nodesPerShard ≠ 0) :
    ∃ r m₁ s₁, Session.exec h (assignMastersAndSlaves clusterName) m s = ((r, m₁), s₁) ∧
      match afterSlaves h m.known clusterName (rolePlan m clusterName).calls s with
      | some s₂ => r = .ok (rolePlan m clusterName).roles ∧ s₁ = s₂ ∧ m₁.known = m.known
      | none => ∃ e, r = .error e := by
  obtain ⟨hr, hs, -, hknown⟩ := exec_assignMastersAndSlaves (h := h) clusterName hshard s
  obtain ⟨r, m₂, s₂, hcalls, hend⟩ := exec_setSlaves (h := h) (m := m) (s := s) clusterName
    (rolePlan m clusterName).calls
  rw [hcalls] at hr hs
  rcases hassign : Session.exec h (assignMastersAndSlaves clusterName) m s with ⟨⟨r₁, m₁⟩, s₁⟩
  rw [hassign] at hr hs hknown
  refine ⟨r₁, m₁, s₁, rfl, ?_⟩
  rcases hafter : afterSlaves h m.known clusterName (rolePlan m clusterName).calls s with _ | s₃
  · rw [hafter] at hend
    obtain ⟨e, rfl⟩ := hend
    exact ⟨_, hr⟩
  · rw [hafter] at hend
    obtain ⟨rfl, rfl⟩ := hend
    exact ⟨hr, hs, hknown _ hr⟩

/-- **Setting the roles succeeds when nothing that is read is refused.** -/
theorem exec_setAllNodeRole (h : Handler RedisCmd RedisCmd.Reply σ) (m : Manager)
    (clusterName : String) (s : σ) :
    ∃ r m' s', Session.exec h (setAllNodeRole clusterName) m s = ((r, m'), s') ∧
      match roleReads h m clusterName s with
      | some log => r = .ok ⟨⟩ ∧ ∃ m₁ s₁, Session.exec h (assignMastersAndSlaves clusterName) m s =
          ((.ok (rolePlan m clusterName).roles, m₁), s₁) ∧
          reads h (Session.sent h (verifyNodeTypeSet (rolePlan m clusterName).roles clusterName)
            m₁ s₁) = log
      | none => ∃ e, r = .error e := by
  rw [setAllNodeRole_eq, roleReads]
  by_cases hshard : m.nodesPerShard = 0
  · rw [if_pos hshard, assignMastersAndSlaves, bind_assoc,
      Session.exec_bind_of_ok (Session.exec_get h _ _),
      if_pos hshard]
    exact ⟨_, m, s, rfl, _, rfl⟩
  rw [if_neg hshard]
  obtain ⟨r, m₁, s₁, hassign, hr⟩ := exec_assignMastersAndSlaves_of_plan (h := h) (s := s)
    clusterName hshard
  rcases hafter : afterSlaves h m.known clusterName (rolePlan m clusterName).calls s with _ | s₂
  · rw [hafter] at hr
    obtain ⟨e, rfl⟩ := hr
    exact ⟨_, m₁, s₁, by rw [Session.exec_bind, hassign], e, rfl⟩
  rw [hafter] at hr
  obtain ⟨rfl, rfl, hknown⟩ := hr
  have hbase : m₁.nodeManager = m.nodeManager := congrArg KnownNodes.nodeManager hknown
  obtain ⟨r, m₂, s₂, hverify, hend⟩ := exec_forM_checkNodeTypeWithRetry (h := h) (m := m₁) (s := s₁)
    clusterName (nodup_rolePlan m clusterName)
    (m₁.nodeManager.nodes.filter (·.clusterName = clusterName)) (by
      intro hne hnil
      rw [hnil] at hne
      exact hne rfl)
  rw [Session.exec_bind_of_ok hassign, Session.exec_tryCatch, verifyNodeTypeSet,
    Session.exec_bind_of_ok (Session.exec_get h _ _), hverify, Option.bind_some]
  rw [hbase] at hend
  rcases hlog : roleSurvey h m.nodeManager clusterName (rolePlan m clusterName).roles
      (m.nodeManager.nodes.filter (·.clusterName = clusterName)) s₁ with _ | log
  · rw [hlog] at hend
    obtain ⟨e, rfl⟩ := hend
    exact ⟨_, m₂, s₂, rfl, _, rfl⟩
  · rw [hlog] at hend
    obtain ⟨rfl, hreads⟩ := hend
    refine ⟨_, m₂, s₂, rfl, rfl, m₁, s₁, hassign, ?_⟩
    rw [Session.sent_bind_of_ok (Session.exec_get h _ _), Session.sent_get, List.nil_append, hbase]
    exact hreads

theorem SetsRolesSoundly.confirmed (hsound : SetsRolesSoundly h m clusterName s) :
    RolesConfirmed h m clusterName s := by
  intro log hlog
  obtain ⟨r, m', s', hexec, hr⟩ := exec_setAllNodeRole h m clusterName s
  rw [hlog] at hr
  obtain ⟨rfl, m₁, s₁, hassign, hreads⟩ := hr
  obtain ⟨roles, m₂, s₂, hassign₂, hshown⟩ := hsound m' s' hexec
  cases hassign.symm.trans hassign₂
  rw [hreads] at hshown
  exact hshown

/-- **The verification is sound exactly if the replies confirm the roles.** -/
theorem setAllNodeRole_sound_iff (h : Handler RedisCmd RedisCmd.Reply σ) (m : Manager)
    (clusterName : String) (s : σ) :
    SetsRolesSoundly h m clusterName s ↔ RolesConfirmed h m clusterName s := by
  refine ⟨SetsRolesSoundly.confirmed, fun hconfirmed m' s' hok => ?_⟩
  obtain ⟨r, m₂, s₂, hexec, hr⟩ := exec_setAllNodeRole h m clusterName s
  cases hexec.symm.trans hok
  rcases hlog : roleReads h m clusterName s with _ | log
  · rw [hlog] at hr
    obtain ⟨e, he⟩ := hr
    cases he
  · rw [hlog] at hr
    obtain ⟨-, m₁, s₁, hassign, hreads⟩ := hr
    refine ⟨_, m₁, s₁, hassign, ?_⟩
    rw [hreads]
    exact hconfirmed log hlog

end Sound

/-! ### A swap that passes -/

def swappedNodes : List ClusterNode :=
  swappedReports.map fun n => { n.node with clusterName := "m" }

/-- Redis that shows the swap. -/
def swappedRedis : Handler RedisCmd RedisCmd.Reply Unit := frozenRedis (renderNodes swappedReports)

theorem shownNodes_swapped :
    shownNodes smallManager.nodeManager "m" (renderNodes swappedReports) = swappedNodes := by
  rw [shownNodes, fst_parseClusterNodeLines_renderNodes swappedReports _ (by decide) (by decide),
    List.map_map]
  rfl

theorem roleLook_frozenRedis {base : BaseNodeManager} {clusterName text : String}
    {nodes : List ClusterNode} (hnum : base.num ≠ 0)
    (htext : shownNodes base clusterName text = nodes)
    (hshown : MastersShown nodes) (addr : String) :
    roleLook (frozenRedis text) base clusterName addr () = (some nodes, ()) := by
  subst htext
  rw [roleLook, if_neg hnum]
  exact Prod.ext (if_pos hshown) rfl

theorem roleLook_swapped (addr : String) :
    roleLook swappedRedis smallManager.nodeManager "m" addr () = (some swappedNodes, ()) :=
  roleLook_frozenRedis (by decide) shownNodes_swapped (by decide) addr

/-- The plan gives the first master the third node, and the second one the fourth. -/
theorem roles_smallManager : (rolePlan smallManager "m").roles = [("a", ["c"]), ("b", ["d"])] := by
  decide +kernel

theorem afterSlaves_swapped :
    afterSlaves swappedRedis smallManager.known "m" (rolePlan smallManager "m").calls () =
      some () := by
  have hcalls : (rolePlan smallManager "m").calls =
      [("10.0.0.1", "10.0.0.3"), ("10.0.0.2", "10.0.0.4")] := by decide +kernel
  have hslave : ∀ x : String × String, (smallManager.nodeManager.getNodeByHost x.2).isSome →
      afterSlave swappedRedis smallManager.known "m" () x = some () := by
    intro x hx
    obtain ⟨slave, hslave⟩ := Option.isSome_iff_exists.mp hx
    exact afterSlave_of_ok "m" hslave rfl rfl (roleLook_swapped _)
  rw [hcalls, afterSlaves, List.foldlM_cons, hslave _ (by decide +kernel), Option.bind_eq_bind,
    Option.bind_some, List.foldlM_cons, hslave _ (by decide +kernel), Option.bind_eq_bind,
    Option.bind_some, List.foldlM_nil]
  rfl

/-- The first look at each node is accepted. -/
theorem roleSurvey_swapped (nodes : List RuntimeNode) :
    roleSurvey swappedRedis smallManager.nodeManager "m" (rolePlan smallManager "m").roles
        nodes () =
      some (nodes.map fun node => (node.clientConnAddr, renderNodes swappedReports)) := by
  have hlooks : ∀ addr, roleLooks swappedRedis smallManager.nodeManager "m"
      (rolePlan smallManager "m").roles addr 10 () = ([renderNodes swappedReports], true, ()) := by
    intro addr
    have hcounts : (some swappedNodes).any
        fun nodes => CountsRoles (rolePlan smallManager "m").roles nodes := by
      rw [roles_smallManager]
      decide
    rw [roleLooks, roleLook_swapped, if_pos hcounts, toldText, if_neg (by decide)]
    rfl
  induction nodes with
  | nil => rfl
  | cons node nodes ih =>
    rw [roleSurvey, hlooks, if_pos rfl, ih]
    rfl

/-- **Two masters with each other's replica pass.** -/
theorem setAllNodeRole_swapped : ¬ SetsRolesSoundly swappedRedis smallManager "m" () := by
  intro hsound
  have hlog : ∃ nodes : List RuntimeNode, roleReads swappedRedis smallManager "m" () =
      some (nodes.map fun node => (node.clientConnAddr, renderNodes swappedReports)) := by
    rw [roleReads, if_neg (by decide), afterSlaves_swapped, Option.bind_some, roleSurvey_swapped]
    exact ⟨_, rfl⟩
  obtain ⟨nodes, hlog⟩ := hlog
  obtain ⟨text, htext, -, hreplicas⟩ := hsound.confirmed _ hlog
    (smallContainer "m-redis-1" "10.0.0.1" 40001) (by decide +kernel) rfl
  obtain ⟨node, -, htext⟩ := List.mem_map.mp htext
  obtain rfl : renderNodes swappedReports = text := congrArg Prod.snd htext
  -- the reply has the fourth node where the plan has the third
  rw [roles_smallManager, shownNodes_swapped] at hreplicas
  have hreplica := (hreplicas ("a", ["c"]) List.mem_cons_self "d").mp (by decide)
  exact absurd hreplica (by decide)

end ClusterManager
