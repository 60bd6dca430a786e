import ClusterManager.Lib.Coupling
import ClusterManager.Model.Nodes

/-!
# Giving out the roles

`assignMastersAndSlaves` takes the first nodes of the sorted list as masters and deals the
others out to them, block by block. Each replica is set at once, and each time the manager reads
the roles of all nodes again and overwrites what it knows of them. None of this is looked at
when the next role is given: the choice rests on the list, the addresses and the marks of
the nodes that have a role already. So it can be said in advance (`rolePlan`), and what the code
does is to make the calls of the plan and to return its map (`exec_assignMastersAndSlaves`).

On a list of `n * nodesPerShard` nodes of the cluster the plan is a balanced partition: `n`
masters with `nodesPerShard - 1` replicas each, and each node once
(`assignMastersAndSlaves_balanced`).
-/

namespace ClusterManager

/-! ### Maps that are kept as lists -/

section Entries

variable {α : Type} {l : List (String × α)} {k k' : String} {v : α}

theorem any_key_iff : l.any (·.1 = k) = true ↔ k ∈ l.map Prod.fst := by
  rw [List.any_eq_true, List.mem_map]
  exact exists_congr fun x => and_congr_right fun _ => decide_eq_true_iff

theorem setEntry_of_notMem (h : k ∉ l.map Prod.fst) : setEntry l k v = l ++ [(k, v)] :=
  if_neg fun hany => h (any_key_iff.mp hany)

theorem setEntry_of_mem (h : k ∈ l.map Prod.fst) :
    setEntry l k v = l.map fun x => if x.1 = k then (k, v) else x :=
  if_pos (any_key_iff.mpr h)

theorem fst_setEntry_of_mem (h : k ∈ l.map Prod.fst) :
    (setEntry l k v).map Prod.fst = l.map Prod.fst := by
  rw [setEntry_of_mem h, List.map_map]
  refine List.map_congr_left fun x _ => ?_
  show (if x.1 = k then (k, v) else x).1 = x.1
  split
  · rename_i hx
    exact hx.symm
  · rfl

theorem lookup_map_setEntry_self (h : k ∈ l.map Prod.fst) :
    (l.map fun x => if x.1 = k then (k, v) else x).lookup k = some v := by
  induction l with
  | nil => cases h
  | cons x l ih =>
    rw [List.map_cons]
    by_cases hx : x.1 = k
    · rw [if_pos hx, List.lookup_cons_self]
    · rw [if_neg hx, List.lookup_cons, beq_eq_false_iff_ne.mpr (Ne.symm hx)]
      exact ih ((List.mem_cons.mp h).resolve_left (Ne.symm hx))

theorem lookup_setEntry_self : (setEntry l k v).lookup k = some v := by
  by_cases h : k ∈ l.map Prod.fst
  · rw [setEntry_of_mem h]
    exact lookup_map_setEntry_self h
  · rw [setEntry_of_notMem h]
    induction l with
    | nil => exact List.lookup_cons_self
    | cons x l ih =>
      rw [List.map_cons, List.mem_cons, not_or] at h
      rw [List.cons_append, List.lookup_cons, beq_eq_false_iff_ne.mpr h.1]
      exact ih h.2

theorem lookup_setEntry_of_ne (hne : k' ≠ k) : (setEntry l k v).lookup k' = l.lookup k' := by
  rw [setEntry]
  split
  · clear * - hne
    induction l with
    | nil => rfl
    | cons x l ih =>
      rw [List.map_cons, List.lookup_cons, List.lookup_cons, ih]
      by_cases hx : x.1 = k
      · rw [if_pos hx, hx]
        dsimp only
        rw [beq_eq_false_iff_ne.mpr hne]
      · rw [if_neg hx]
  · clear * - hne
    induction l with
    | nil =>
      rw [List.nil_append, List.lookup_cons, beq_eq_false_iff_ne.mpr hne]
    | cons x l ih => rw [List.cons_append, List.lookup_cons, List.lookup_cons, ih]

/-- Nothing is set where there is no entry. -/
theorem map_set_of_notMem (h : k ∉ l.map Prod.fst) (w : α) :
    (l.map fun x => if x.1 = k then (k, w) else x) = l := by
  refine (List.map_congr_left fun x hx => if_neg fun hxk => h ?_).trans (List.map_id' l)
  exact hxk ▸ List.mem_map_of_mem hx

/-- The entry that was set last is set again. -/
theorem setEntry_append_self {w : α} (h : k ∉ l.map Prod.fst) :
    setEntry (l ++ [(k, v)]) k w = l ++ [(k, w)] := by
  rw [setEntry_of_mem (by simp), List.map_append, map_set_of_notMem h, List.map_singleton,
    if_pos rfl]

theorem lookup_append_self (h : k ∉ l.map Prod.fst) : (l ++ [(k, v)]).lookup k = some v := by
  rw [← setEntry_of_notMem h]
  exact lookup_setEntry_self

theorem nodup_keys_setEntry (h : (l.map Prod.fst).Nodup) :
    ((setEntry l k v).map Prod.fst).Nodup := by
  by_cases hk : k ∈ l.map Prod.fst
  · rw [fst_setEntry_of_mem hk]
    exact h
  · rw [setEntry_of_notMem hk, List.map_append, List.map_singleton]
    refine List.nodup_append.mpr ⟨h, List.nodup_singleton _, ?_⟩
    rintro a ha b hb rfl
    obtain rfl : a = k := List.mem_singleton.mp hb
    exact hk ha

theorem isSome_lookup_iff : (l.lookup k).isSome ↔ k ∈ l.map Prod.fst := by
  induction l with
  | nil => simp
  | cons x l ih =>
    rw [List.lookup_cons, List.map_cons, List.mem_cons, ← ih]
    by_cases hx : k = x.1
    · simp [hx]
    · simp [beq_eq_false_iff_ne.mpr hx, hx]

/-- The names in a map of roles. -/
def named (l : List (String × List String)) : List String := l.flatMap fun x => x.1 :: x.2

/-- One more replica of a master. -/
theorem named_setEntry_append {l : List (String × List String)} {name : String}
    (hk : k ∈ l.map Prod.fst) (hnodup : (l.map Prod.fst).Nodup) :
    (named (setEntry l k ((l.lookup k).getD [] ++ [name]))).Perm (named l ++ [name]) := by
  rw [setEntry_of_mem hk]
  induction l with
  | nil => cases hk
  | cons x l ih =>
    obtain ⟨hx, hnodup⟩ := List.nodup_cons.mp hnodup
    rw [List.map_cons, List.lookup_cons]
    by_cases hxk : x.1 = k
    · -- the entry is the first, and no other has its key
      rw [if_pos hxk, map_set_of_notMem (hxk ▸ hx), hxk]
      simp only [beq_self_eq_true, Option.getD_some, named, List.flatMap_cons, List.cons_append,
        List.nil_append, List.append_assoc, hxk]
      exact ((List.perm_append_singleton name _).symm.append_left x.2).cons k
    · rw [if_neg hxk, beq_eq_false_iff_ne.mpr (Ne.symm hxk)]
      have hmem := (List.mem_cons.mp hk).resolve_left (Ne.symm hxk)
      simp only [named, List.flatMap_cons, List.append_assoc] at ih ⊢
      exact (ih hmem hnodup).append_left _

theorem fst_sublist_named (l : List (String × List String)) :
    (l.map Prod.fst).Sublist (named l) := by
  induction l with
  | nil => exact List.Sublist.refl _
  | cons x l ih =>
    rw [named, List.flatMap_cons, List.map_cons, List.cons_append]
    exact (ih.trans (List.sublist_append_right _ _)).cons_cons x.1

theorem length_named (l : List (String × List String)) :
    (named l).length = l.length + (l.flatMap Prod.snd).length := by
  induction l with
  | nil => rfl
  | cons x l ih =>
    rw [named, List.flatMap_cons, List.length_append, List.length_cons, ← named, ih,
      List.flatMap_cons, List.length_append, List.length_cons]
    omega

theorem snd_sublist_named (l : List (String × List String)) :
    (l.flatMap Prod.snd).Sublist (named l) := by
  induction l with
  | nil => exact List.Sublist.refl _
  | cons x l ih =>
    rw [named, List.flatMap_cons, List.flatMap_cons]
    exact (List.sublist_cons_self x.1 x.2).append ih

end Entries

/-! ### What the choice of the roles rests on -/

/-- The part of the memory that setting a role does not write. -/
structure KnownNodes where
  nodeManager : BaseNodeManager
  list : List String
  nodes : String → Option ClusterNode
  ipToID : String → Option String

def Manager.known (m : Manager) : KnownNodes :=
  ⟨m.nodeManager, m.topo.list, m.topo.nodes, m.topo.ipToID⟩

/-- Two managers that know the nodes that `m` knows; the first one has marked those of `marks`. -/
structure Follows (m : Manager) (marks : String → Bool) (c d : Manager) : Prop where
  left : c.known = m.known
  right : d.known = m.known
  roleSet : c.roleSet = marks

section Couples

variable {σ : Type} {h : Handler RedisCmd RedisCmd.Reply σ} {m : Manager} {marks : String → Bool}

open Session

theorem getClusterNodes_couples {P : Manager → Manager → Prop}
    (hP : ∀ c d, P c d → c.nodeManager = d.nodeManager) (loginNode : RuntimeNode)
    (clusterName : String) :
    Couples h P (fun _ => P) (getClusterNodes loginNode clusterName)
      (getClusterNodes loginNode clusterName) := by
  have hforget : ∀ ids, Couples h P (fun _ => P) (forgetFailedClusterNodes clusterName ids)
      (forgetFailedClusterNodes clusterName ids) := by
    refine fun ids => Couples.get_bind fun c d hcd => ?_
    rw [hP c d hcd]
    split
    · exact Couples.pure fun _ _ hcd => hcd
    · exact Couples.forM fun _ _ => (Couples.lift _).bind fun _ => Couples.pure fun _ _ hcd => hcd
  refine Couples.get_bind fun c d hcd => ?_
  rw [hP c d hcd]
  simp only [Session.fail_bind]
  split
  · exact Couples.fail _
  refine (Couples.lift _).bind fun r => (Couples.orFail _ _).bind fun text => ?_
  refine Couples.get_bind fun c d hcd => ?_
  rw [hP c d hcd]
  dsimp only
  split
  · exact (hforget _).bind fun _ => Couples.pure fun _ _ hcd => hcd
  · exact Couples.pure fun _ _ hcd => hcd

/-- Reading the roles does not depend on what is known of them, and leaves the rest alone. -/
theorem updateAfterSetNodeRole_couples (loginNode : RuntimeNode) (clusterName : String) :
    Couples h (Follows m marks) (fun _ => Follows m marks)
      (updateAfterSetNodeRole loginNode clusterName)
      (updateAfterSetNodeRole loginNode clusterName) := by
  -- once the roles are forgotten, both know the same masters
  have hbase : ∀ c d : Manager, Follows m marks c d ∧ c.topo.masterSet = d.topo.masterSet →
      c.nodeManager = d.nodeManager := fun c d hcd =>
    congrArg KnownNodes.nodeManager (hcd.1.left.trans hcd.1.right.symm)
  refine Couples.bind (Q := fun _ c d => Follows m marks c d ∧ c.topo.masterSet = d.topo.masterSet)
    (Couples.modify fun c d hcd => ⟨⟨hcd.left, hcd.right, hcd.roleSet⟩, rfl⟩) fun _ => ?_
  refine Couples.get_bind fun c d hcd => ?_
  rw [hbase c d hcd]
  split
  · exact Couples.pure fun _ _ hcd => hcd.1
  refine (getClusterNodes_couples hbase _ _).bind fun nodes => ?_
  split
  · exact Couples.pure fun _ _ hcd => hcd.1
  refine (Couples.forM fun master _ => Couples.modify fun c d hcd =>
    ⟨⟨hcd.1.left, hcd.1.right, hcd.1.roleSet⟩,
      congrArg (fun set : String → Bool => Function.update set master.id true) hcd.2⟩).bind fun _ =>
      (Couples.forM fun slave _ => Couples.get_bind fun c d hcd => ?_).bind fun _ =>
        Couples.modify fun c d hcd => ⟨hcd.1.left, hcd.1.right, hcd.1.roleSet⟩
  rw [hcd.2]
  simp only [Session.fail_bind]
  split
  · exact Couples.fail _
  · exact Couples.modify fun c d hcd => ⟨⟨hcd.1.left, hcd.1.right, hcd.1.roleSet⟩, hcd.2⟩

/-- Setting a role does not depend on what is known of the roles. -/
theorem setNodeAsSlave_couples (masterIP slaveIP clusterName : String) :
    Couples h (Follows m marks) (fun _ => Follows m marks)
      (setNodeAsSlave masterIP slaveIP clusterName)
      (setNodeAsSlave masterIP slaveIP clusterName) := by
  refine Couples.get_bind fun c d hcd => ?_
  have hbase : c.nodeManager = d.nodeManager :=
    congrArg KnownNodes.nodeManager (hcd.left.trans hcd.right.symm)
  have hids : c.topo.ipToID = d.topo.ipToID :=
    congrArg KnownNodes.ipToID (hcd.left.trans hcd.right.symm)
  rw [hbase, hids]
  split
  · exact Couples.fail _
  refine (Couples.lift _).bind fun r => (Couples.orFail _ _).bind fun _ => ?_
  split
  · exact Couples.fail _
  · exact updateAfterSetNodeRole_couples _ _

end Couples

/-! ### The plan -/

/-- The roles that are given out: the map of the replicas, the nodes that have a role, and the
calls of `setNodeAsSlave`, by the addresses of the master and the replica. -/
structure RolePlan where
  roles : List (String × List String) := []
  roleSet : String → Bool
  calls : List (String × String) := []

namespace RolePlan

variable (t : Topology)

/-- One more replica, unless it is of another cluster or both have a role already. -/
def addSlave (masterID masterIP clusterName : String) (p : RolePlan) (id : String) : RolePlan :=
  let node := t.nodes id
  let slaveIP := (node.map (·.ip)).getD ""
  let slaveID := (t.ipToID slaveIP).getD ""
  if (node.map (·.clusterName)).getD "" ≠ clusterName ∨
      (p.roleSet masterID ∧ p.roleSet slaveID) then p
  else
    { roles := setEntry p.roles masterID ((p.roles.lookup masterID).getD [] ++ [slaveID])
      roleSet := Function.update (Function.update p.roleSet masterID true) slaveID true
      calls := p.calls ++ [(masterIP, slaveIP)] }

def addSlaves (masterID masterIP clusterName : String) (p : RolePlan) (ids : List String) :
    RolePlan := ids.foldl (addSlave t masterID masterIP clusterName) p

theorem addSlaves_cons (masterID masterIP clusterName : String) (p : RolePlan) (id : String)
    (ids : List String) :
    addSlaves t masterID masterIP clusterName p (id :: ids) =
      addSlaves t masterID masterIP clusterName
        (p.addSlave t masterID masterIP clusterName id) ids :=
  rfl

/-- The `i`-th of `n` masters and its replicas. -/
def addMaster (clusterName : String) (n k : ℕ) (p : RolePlan) (i : ℕ) : RolePlan :=
  let node := (t.list[i]?).bind t.nodes
  if (node.map (·.clusterName)).getD "" ≠ clusterName then p
  else
    let masterIP := (node.map (·.ip)).getD ""
    let masterID := (t.ipToID masterIP).getD ""
    addSlaves t masterID masterIP clusterName { p with roles := setEntry p.roles masterID [] }
      ((t.list.drop (n + i * (k - 1))).take (k - 1))

def addMasters (clusterName : String) (n k : ℕ) (p : RolePlan) (l : List ℕ) : RolePlan :=
  l.foldl (addMaster t clusterName n k) p

theorem addMasters_cons (clusterName : String) (n k : ℕ) (p : RolePlan) (i : ℕ) (l : List ℕ) :
    addMasters t clusterName n k p (i :: l) =
      addMasters t clusterName n k (p.addMaster t clusterName n k i) l := rfl

theorem addMasters_concat (clusterName : String) (n k : ℕ) (p : RolePlan) (l : List ℕ) (i : ℕ) :
    addMasters t clusterName n k p (l ++ [i]) =
      (addMasters t clusterName n k p l).addMaster t clusterName n k i := by
  rw [addMasters, List.foldl_append]
  rfl

end RolePlan

/-- **The roles that a manager gives out.** -/
def rolePlan (m : Manager) (clusterName : String) : RolePlan :=
  let n := ((m.topo.list.length : ℤ).tdiv m.nodesPerShard).toNat
  RolePlan.addMasters m.topo clusterName n m.nodesPerShard.toNat { roleSet := m.roleSet }
    (List.range n)

/-- Make the calls of a plan. -/
def setSlaves (clusterName : String) (calls : List (String × String)) : ManagerM PUnit :=
  forM calls fun x => setNodeAsSlave x.1 x.2 clusterName

theorem setSlaves_append (clusterName : String) (l l' : List (String × String)) :
    setSlaves clusterName (l ++ l') = setSlaves clusterName l >>= fun _ =>
      setSlaves clusterName l' := List.forM_append

section Plan

variable {σ : Type} {h : Handler RedisCmd RedisCmd.Reply σ} {m : Manager}

open Session

/-- The code and the plan, for the replicas of a master. -/
theorem assignSlaves_couples (masterID masterIP clusterName : String) (ids : List String)
    (p : RolePlan) :
    ∃ calls, (RolePlan.addSlaves m.topo masterID masterIP clusterName p ids).calls =
        p.calls ++ calls ∧
      Couples h (Follows m p.roleSet)
        (fun roles c d => roles =
            (RolePlan.addSlaves m.topo masterID masterIP clusterName p ids).roles ∧
          Follows m (RolePlan.addSlaves m.topo masterID masterIP clusterName p ids).roleSet c d)
        (assignSlaves masterID masterIP clusterName ids p.roles)
        (do
          setSlaves clusterName calls
          return (RolePlan.addSlaves m.topo masterID masterIP clusterName p ids).roles) := by
  induction ids generalizing p with
  | nil => exact ⟨[], (List.append_nil _).symm, Couples.pure fun _ _ hcd => ⟨rfl, hcd⟩⟩
  | cons id ids ih =>
    obtain ⟨calls, hcalls, hrest⟩ := ih (p.addSlave m.topo masterID masterIP clusterName id)
    rw [RolePlan.addSlaves_cons, hcalls]
    -- the code decides as the plan does
    have hread : ∀ c d : Manager, Follows m p.roleSet c d → c.topo.nodes = m.topo.nodes ∧
        c.topo.ipToID = m.topo.ipToID ∧ c.roleSet = p.roleSet := fun c d hcd =>
      ⟨congrArg KnownNodes.nodes hcd.left, congrArg KnownNodes.ipToID hcd.left, hcd.roleSet⟩
    rw [RolePlan.addSlave] at hrest ⊢
    split at hrest
    · rename_i hskip
      rw [if_pos hskip]
      refine ⟨calls, rfl, Couples.get_left fun c d hcd => ?_⟩
      obtain ⟨hnodes, hids, hroles⟩ := hread c d hcd
      dsimp only
      rw [hnodes, hids, hroles, if_pos hskip]
      exact hrest
    · rename_i hset
      rw [if_neg hset]
      refine ⟨_ :: calls, List.append_assoc _ _ _, Couples.get_left fun c d hcd => ?_⟩
      obtain ⟨hnodes, hids, hroles⟩ := hread c d hcd
      dsimp only
      rw [hnodes, hids, hroles, if_neg hset, setSlaves, List.forM_cons, bind_assoc]
      refine (setNodeAsSlave_couples _ _ _).bind fun _ =>
        Couples.modify_left (fun c d hcd => ?_) hrest
      exact ⟨hcd.left, hcd.right, by rw [hcd.roleSet]⟩

/-- The code and the plan, for the masters. -/
theorem assignMasters_couples (clusterName : String) (n k : ℕ) (l : List ℕ) (p : RolePlan) :
    ∃ calls, (RolePlan.addMasters m.topo clusterName n k p l).calls = p.calls ++ calls ∧
      Couples h (Follows m p.roleSet)
        (fun roles c d => roles = (RolePlan.addMasters m.topo clusterName n k p l).roles ∧
          Follows m (RolePlan.addMasters m.topo clusterName n k p l).roleSet c d)
        (assignMasters clusterName n k l p.roles)
        (do
          setSlaves clusterName calls
          return (RolePlan.addMasters m.topo clusterName n k p l).roles) := by
  induction l generalizing p with
  | nil => exact ⟨[], (List.append_nil _).symm, Couples.pure fun _ _ hcd => ⟨rfl, hcd⟩⟩
  | cons i l ih =>
    obtain ⟨calls, hcalls, hrest⟩ := ih (p.addMaster m.topo clusterName n k i)
    rw [RolePlan.addMasters_cons, hcalls]
    have hread : ∀ c d : Manager, Follows m p.roleSet c d → c.topo.nodes = m.topo.nodes ∧
        c.topo.ipToID = m.topo.ipToID ∧ c.topo.list = m.topo.list := fun c d hcd =>
      ⟨congrArg KnownNodes.nodes hcd.left, congrArg KnownNodes.ipToID hcd.left,
        congrArg KnownNodes.list hcd.left⟩
    rw [RolePlan.addMaster] at hrest ⊢
    split at hrest
    · rename_i hskip
      rw [if_pos hskip]
      refine ⟨calls, rfl, Couples.get_left fun c d hcd => ?_⟩
      obtain ⟨hnodes, hids, hlist⟩ := hread c d hcd
      dsimp only
      rw [hnodes, hlist, if_pos hskip]
      exact hrest
    · rename_i hmaster
      rw [if_neg hmaster]
      obtain ⟨first, hfirst, hslaves⟩ := assignSlaves_couples (h := h) (m := m)
        ((m.topo.ipToID (((m.topo.list[i]?.bind m.topo.nodes).map (·.ip)).getD "")).getD "")
        (((m.topo.list[i]?.bind m.topo.nodes).map (·.ip)).getD "") clusterName
        ((m.topo.list.drop (n + i * (k - 1))).take (k - 1)) { p with
          roles := setEntry p.roles ((m.topo.ipToID
            (((m.topo.list[i]?.bind m.topo.nodes).map (·.ip)).getD "")).getD "") [] }
      refine ⟨first ++ calls, by rw [hfirst, List.append_assoc], Couples.get_left fun c d hcd => ?_⟩
      obtain ⟨hnodes, hids, hlist⟩ := hread c d hcd
      dsimp only
      rw [hnodes, hids, hlist, if_neg hmaster, modifyTopo]
      -- the calls for this master come first
      have hsplit : ∀ roles roles' : List (String × List String), (do
          setSlaves clusterName (first ++ calls)
          return roles : ManagerM (List (String × List String))) = (do
            setSlaves clusterName first
            return roles') >>= fun _ => (do
              setSlaves clusterName calls
              return roles) := fun roles roles' => by
        simp only [setSlaves_append, bind_assoc, pure_bind]
      rw [hsplit]
      refine Couples.modify_left (fun c d hcd => ?_) (hslaves.bind fun roles => Couples.of_fact ?_)
      · exact ⟨hcd.left, hcd.right, hcd.roleSet⟩
      · rintro rfl
        exact hrest

/-- **What the code does is to make the calls of the plan**, and to return its map. -/
theorem exec_assignMastersAndSlaves (clusterName : String) (hshard : m.nodesPerShard ≠ 0) (s : σ) :
    (exec h (assignMastersAndSlaves clusterName) m s).1.1 =
        (exec h (setSlaves clusterName (rolePlan m clusterName).calls) m s).1.1.map
          (fun _ => (rolePlan m clusterName).roles) ∧
      (exec h (assignMastersAndSlaves clusterName) m s).2 =
        (exec h (setSlaves clusterName (rolePlan m clusterName).calls) m s).2 ∧
      sent h (assignMastersAndSlaves clusterName) m s =
        sent h (setSlaves clusterName (rolePlan m clusterName).calls) m s ∧
      ∀ roles, (exec h (assignMastersAndSlaves clusterName) m s).1.1 = .ok roles →
        (exec h (assignMastersAndSlaves clusterName) m s).1.2.known = m.known := by
  obtain ⟨calls, hcalls, hcouples⟩ := assignMasters_couples (h := h) (m := m) clusterName
    ((m.topo.list.length : ℤ).tdiv m.nodesPerShard).toNat m.nodesPerShard.toNat
    (List.range ((m.topo.list.length : ℤ).tdiv m.nodesPerShard).toNat) { roleSet := m.roleSet }
  obtain rfl : calls = (rolePlan m clusterName).calls := hcalls.symm
  obtain ⟨hr, hs, hsent, hend⟩ := hcouples m m s ⟨rfl, rfl, rfl⟩
  have hassign : assignMastersAndSlaves clusterName = (do
      let c ← get
      if c.nodesPerShard = 0 then throw (.panic "integer divide by zero")
      assignMasters clusterName ((c.topo.list.length : ℤ).tdiv c.nodesPerShard).toNat
        c.nodesPerShard.toNat
        (List.range ((c.topo.list.length : ℤ).tdiv c.nodesPerShard).toNat) []) := rfl
  rw [hassign, exec_bind, exec_get, sent_bind, exec_get, sent_get, List.nil_append]
  simp only [if_neg hshard]
  refine ⟨hr.trans ?_, hs.trans ?_, hsent.trans ?_, fun roles hroles => (hend roles hroles).2.left⟩
  · rw [exec_bind]
    rcases exec h (setSlaves clusterName (rolePlan m clusterName).calls) m s with
      ⟨⟨e | _, m'⟩, s'⟩ <;> rfl
  · rw [exec_bind]
    rcases exec h (setSlaves clusterName (rolePlan m clusterName).calls) m s with
      ⟨⟨e | _, m'⟩, s'⟩ <;> rfl
  · rw [sent_bind]
    rcases exec h (setSlaves clusterName (rolePlan m clusterName).calls) m s with
      ⟨⟨e | _, m'⟩, s'⟩ <;> exact List.append_nil _

end Plan

/-- The plan names each master once. -/
theorem nodup_rolePlan (m : Manager) (clusterName : String) :
    ((rolePlan m clusterName).roles.map Prod.fst).Nodup := by
  have hslaves : ∀ (masterID masterIP : String) (ids : List String) (p : RolePlan),
      (p.roles.map Prod.fst).Nodup →
        ((RolePlan.addSlaves m.topo masterID masterIP clusterName p ids).roles.map
          Prod.fst).Nodup := by
    intro masterID masterIP ids
    induction ids with
    | nil => exact fun p hp => hp
    | cons id ids ih =>
      intro p hp
      rw [RolePlan.addSlaves_cons]
      refine ih _ ?_
      rw [RolePlan.addSlave]
      split
      · exact hp
      · exact nodup_keys_setEntry hp
  have hmasters : ∀ (n k : ℕ) (l : List ℕ) (p : RolePlan), (p.roles.map Prod.fst).Nodup →
      ((RolePlan.addMasters m.topo clusterName n k p l).roles.map Prod.fst).Nodup := by
    intro n k l
    induction l with
    | nil => exact fun p hp => hp
    | cons i l ih =>
      intro p hp
      rw [RolePlan.addMasters_cons]
      refine ih _ ?_
      rw [RolePlan.addMaster]
      split
      · exact hp
      · exact hslaves _ _ _ _ (nodup_keys_setEntry hp)
  exact hmasters _ _ _ _ List.nodup_nil

/-! ### A balanced list -/

/-- The list holds `n * k` nodes of the cluster with different names, each of which is found under
its address (so the addresses are different, too), and no role has been given. -/
structure Assignable (m : Manager) (clusterName : String) (n k : ℕ) : Prop where
  nodesPerShard : m.nodesPerShard = k
  length : m.topo.list.length = n * k
  nodup : m.topo.list.Nodup
  nodes : ∀ id ∈ m.topo.list, ∃ node, m.topo.nodes id = some node ∧
    node.clusterName = clusterName ∧ m.topo.ipToID node.ip = some id
  roleSet : ∀ id, m.roleSet id = false

/-- The address of a node. -/
def ipOf (t : Topology) (id : String) : String := ((t.nodes id).map (·.ip)).getD ""

/-- The block of the list that is dealt out to the `i`-th of `n` masters. -/
def replicasOf (l : List String) (n k i : ℕ) : List String :=
  (l.drop (n + i * (k - 1))).take (k - 1)

/-- The `i`-th master with its replicas. -/
def shardOf (l : List String) (n k i : ℕ) : String × List String :=
  ((l[i]?).getD "", replicasOf l n k i)

section Blocks

variable {l : List String} {n k i j : ℕ} {x : String}

theorem mem_replicasOf :
    x ∈ replicasOf l n k i ↔ ∃ a < k - 1, l[n + i * (k - 1) + a]? = some x := by
  rw [replicasOf, List.mem_iff_getElem?]
  refine exists_congr fun a => ?_
  rw [List.getElem?_take, List.getElem?_drop]
  split <;> simp_all

/-- The masters, and what is behind them. -/
theorem mul_eq_add (hk : 0 < k) : n * k = n + n * (k - 1) := by
  obtain ⟨q, rfl⟩ : ∃ q, k = q + 1 := ⟨k - 1, by omega⟩
  rw [Nat.add_sub_cancel, Nat.mul_succ, Nat.add_comm]

theorem length_replicasOf (hlen : l.length = n * k) (hk : 0 < k) (hi : i < n) :
    (replicasOf l n k i).length = k - 1 := by
  have hle : (i + 1) * (k - 1) ≤ n * (k - 1) := Nat.mul_le_mul_right _ hi
  rw [mul_eq_add hk] at hlen
  rw [Nat.succ_mul] at hle
  rw [replicasOf, List.length_take, List.length_drop]
  omega

/-- The blocks, one after the other, are the list behind the masters. -/
theorem flatMap_replicasOf (l : List String) (n k i : ℕ) :
    (List.range i).flatMap (replicasOf l n k) = (l.drop n).take (i * (k - 1)) := by
  induction i with
  | zero => simp
  | succ i ih =>
    rw [List.range_succ, List.flatMap_append, ih, List.flatMap_singleton, replicasOf, Nat.succ_mul,
      List.take_add, List.drop_drop]

theorem map_getElem?_range (hn : n ≤ l.length) :
    (List.range n).map (fun i => (l[i]?).getD "") = l.take n := by
  refine List.ext_getElem (by simp [hn]) fun i hi hi' => ?_
  have hlt : i < l.length := by
    rw [List.length_take] at hi'
    omega
  simp [List.getElem?_eq_getElem hlt]

/-- A name has one place in the list. -/
theorem getElem?_unique (hl : l.Nodup) {a b : ℕ} (ha : l[a]? = some x) (hb : l[b]? = some x) :
    a = b :=
  (List.getElem?_inj (List.getElem?_eq_some_iff.mp ha).1 hl).mp (ha.trans hb.symm)

/-- A replica is none of the masters, -/
theorem getElem?_ne_of_mem_replicasOf (hl : l.Nodup) (hx : x ∈ replicasOf l n k i) (hj : j < n) :
    l[j]? ≠ some x := by
  intro hjx
  obtain ⟨a, -, hax⟩ := mem_replicasOf.mp hx
  have := getElem?_unique hl hjx hax
  omega

/-- and of one master only. -/
theorem notMem_replicasOf_of_lt (hl : l.Nodup) (hx : x ∈ replicasOf l n k i) (hj : j < i) :
    x ∉ replicasOf l n k j := by
  intro hjx
  obtain ⟨a, -, hax⟩ := mem_replicasOf.mp hx
  obtain ⟨b, hb, hbx⟩ := mem_replicasOf.mp hjx
  have hplace := getElem?_unique hl hbx hax
  have hle : (j + 1) * (k - 1) ≤ i * (k - 1) := Nat.mul_le_mul_right _ hj
  rw [Nat.succ_mul] at hle
  omega

/-- Every name of the list is in one shard, once. -/
theorem named_shardOf_perm (hlen : l.length = n * k) (hk : 0 < k) :
    (named ((List.range n).map (shardOf l n k))).Perm l := by
  rw [mul_eq_add hk] at hlen
  have hall : (l.drop n).take (n * (k - 1)) = l.drop n := by
    refine List.take_of_length_le ?_
    rw [List.length_drop]
    omega
  have hparts := List.map_append_flatMap_perm (List.range n) (fun i => (l[i]?).getD "")
    (replicasOf l n k)
  rw [map_getElem?_range (by omega), flatMap_replicasOf, hall, List.take_append_drop] at hparts
  rw [named, List.flatMap_map]
  exact hparts.symm

end Blocks

section Balanced

variable {t : Topology} {clusterName masterID : String} {p : RolePlan}
  {before : List (String × List String)} {v : List String}

/-- A node of the cluster that is found under its address. -/
def FoundByIP (t : Topology) (clusterName id : String) : Prop :=
  ∃ node, t.nodes id = some node ∧ node.clusterName = clusterName ∧ t.ipToID node.ip = some id

/-- A node that has no role becomes a replica. -/
theorem addSlave_of_free (masterIP : String) {id : String} (hid : FoundByIP t clusterName id)
    (hfree : p.roleSet id = false) (hp : p.roles = before ++ [(masterID, v)])
    (hnew : masterID ∉ before.map Prod.fst) :
    p.addSlave t masterID masterIP clusterName id =
      { roles := before ++ [(masterID, v ++ [id])]
        roleSet := Function.update (Function.update p.roleSet masterID true) id true
        calls := p.calls ++ [(masterIP, ipOf t id)] } := by
  obtain ⟨node, hnode, hcluster, hip⟩ := hid
  rw [RolePlan.addSlave, ipOf, hnode]
  simp only [Option.map_some, Option.getD_some, hip, hcluster, hfree, ne_eq, not_true_eq_false,
    Bool.false_eq_true, and_false, or_self, if_false]
  rw [hp, lookup_append_self hnew, Option.getD_some, setEntry_append_self hnew]

/-- Nodes that have no role become replicas, one after the other. -/
theorem addSlaves_of_free (masterIP : String) {ids : List String}
    (hids : ∀ id ∈ ids, FoundByIP t clusterName id)
    (hnodup : ids.Nodup) (hmaster : masterID ∉ ids) (hfree : ∀ id ∈ ids, p.roleSet id = false)
    (hp : p.roles = before ++ [(masterID, v)]) (hnew : masterID ∉ before.map Prod.fst) :
    (RolePlan.addSlaves t masterID masterIP clusterName p ids).roles =
        before ++ [(masterID, v ++ ids)] ∧
      (RolePlan.addSlaves t masterID masterIP clusterName p ids).calls =
        p.calls ++ ids.map (fun id => (masterIP, ipOf t id)) ∧
      ∀ x, (RolePlan.addSlaves t masterID masterIP clusterName p ids).roleSet x →
        p.roleSet x ∨ x = masterID ∨ x ∈ ids := by
  induction ids generalizing p v with
  | nil => exact ⟨by simpa [RolePlan.addSlaves] using hp, by simp [RolePlan.addSlaves],
      fun x hx => Or.inl hx⟩
  | cons id ids ih =>
    obtain ⟨hid, hnodup⟩ := List.nodup_cons.mp hnodup
    obtain ⟨hne, hmaster⟩ := not_or.mp (mt List.mem_cons.mpr hmaster)
    have hstep := addSlave_of_free masterIP (hids id List.mem_cons_self)
      (hfree id List.mem_cons_self) hp hnew
    have hroles₁ := congrArg RolePlan.roles hstep
    have hmarks₁ := congrArg RolePlan.roleSet hstep
    have hcalls₁ := congrArg RolePlan.calls hstep
    rw [RolePlan.addSlaves_cons]
    generalize p.addSlave t masterID masterIP clusterName id = q at hroles₁ hmarks₁ hcalls₁ ⊢
    dsimp only at hroles₁ hmarks₁ hcalls₁
    -- the marks of this step are on nodes that do not come again
    have hfree' : ∀ x ∈ ids, q.roleSet x = false := by
      intro x hx
      have hxid : x ≠ id := fun heq => hid (heq ▸ hx)
      have hxmaster : x ≠ masterID := fun heq => hmaster (heq ▸ hx)
      rw [hmarks₁, Function.update_of_ne hxid, Function.update_of_ne hxmaster]
      exact hfree x (List.mem_cons_of_mem _ hx)
    obtain ⟨hroles, hcalls, hmarks⟩ := ih (fun x hx => hids x (List.mem_cons_of_mem _ hx)) hnodup
      hmaster hfree' hroles₁
    refine ⟨?_, ?_, fun x hx => ?_⟩
    · rw [hroles, List.append_assoc, List.singleton_append]
    · rw [hcalls, hcalls₁, List.append_assoc, List.singleton_append, List.map_cons]
    · rcases hmarks x hx with hmark | rfl | hx
      · rw [hmarks₁, Function.update_apply, Function.update_apply] at hmark
        split at hmark
        · rename_i heq
          exact Or.inr (Or.inr (heq ▸ List.mem_cons_self))
        · split at hmark
          · rename_i heq
            exact Or.inr (Or.inl heq)
          · exact Or.inl hmark
      · exact Or.inr (Or.inl rfl)
      · exact Or.inr (Or.inr (List.mem_cons_of_mem _ hx))

variable {m : Manager} {n k : ℕ}

/-- The calls for the `i`-th master. -/
def callsOf (t : Topology) (n k i : ℕ) : List (String × String) :=
  (replicasOf t.list n k i).map fun id => (ipOf t ((t.list[i]?).getD ""), ipOf t id)

/-- **The plan for a balanced list**, up to the `i`-th master. -/
theorem Assignable.addMasters (hm : Assignable m clusterName n k) {i : ℕ} (hi : i ≤ n)
    (hk : 0 < k) :
    (RolePlan.addMasters m.topo clusterName n k { roleSet := m.roleSet } (List.range i)).roles =
        (List.range i).map (shardOf m.topo.list n k) ∧
      (RolePlan.addMasters m.topo clusterName n k { roleSet := m.roleSet } (List.range i)).calls =
        (List.range i).flatMap (callsOf m.topo n k) ∧
      ∀ x, (RolePlan.addMasters m.topo clusterName n k { roleSet := m.roleSet }
          (List.range i)).roleSet x →
        ∃ j < i, m.topo.list[j]? = some x ∨ x ∈ replicasOf m.topo.list n k j := by
  induction i with
  | zero =>
    exact ⟨rfl, rfl, fun x hx => absurd ((hm.roleSet x).symm.trans hx) Bool.false_ne_true⟩
  | succ i ih =>
    obtain ⟨hroles, hcalls, hmarks⟩ := ih (by omega)
    have hlt : i < m.topo.list.length := by
      rw [hm.length]
      exact (Nat.lt_of_succ_le hi).trans_le (Nat.le_mul_of_pos_right n hk)
    rw [List.range_succ, RolePlan.addMasters_concat]
    generalize RolePlan.addMasters m.topo clusterName n k { roleSet := m.roleSet }
      (List.range i) = q
      at hroles hcalls hmarks ⊢
    have hget := List.getElem?_eq_getElem hlt
    generalize m.topo.list[i] = id at hget
    have hmem : ∀ {x a}, m.topo.list[a]? = some x → x ∈ m.topo.list := List.mem_of_getElem?
    have hmaster : q.addMaster m.topo clusterName n k i =
        RolePlan.addSlaves m.topo id (ipOf m.topo id) clusterName
          { q with roles := setEntry q.roles id [] } (replicasOf m.topo.list n k i) := by
      obtain ⟨node, hnode, hcluster, hip⟩ := hm.nodes id (hmem hget)
      rw [RolePlan.addMaster, hget, ipOf, hnode]
      simp [hnode, hcluster, hip, replicasOf]
    -- the master and its replicas have no role yet
    have hnew : id ∉ q.roles.map Prod.fst := by
      rw [hroles, List.map_map, List.mem_map]
      rintro ⟨j, hj, hid⟩
      have hj := List.mem_range.mp hj
      have hlt' : j < m.topo.list.length := hj.trans hlt
      have hid : (m.topo.list[j]?).getD "" = id := hid
      rw [List.getElem?_eq_getElem hlt', Option.getD_some] at hid
      have := getElem?_unique hm.nodup hget (hid ▸ List.getElem?_eq_getElem hlt')
      omega
    have hfree : ∀ x ∈ replicasOf m.topo.list n k i, q.roleSet x = false := by
      intro x hx
      by_contra hmark
      obtain ⟨j, hj, hjx | hjx⟩ := hmarks x (by simpa using hmark)
      · exact getElem?_ne_of_mem_replicasOf hm.nodup hx (by omega) hjx
      · exact notMem_replicasOf_of_lt hm.nodup hx hj hjx
    have hids : ∀ x ∈ replicasOf m.topo.list n k i, FoundByIP m.topo clusterName x := fun x hx =>
      hm.nodes x (List.mem_of_mem_drop (List.mem_of_mem_take hx))
    have hnodup : (replicasOf m.topo.list n k i).Nodup :=
      hm.nodup.sublist ((List.take_sublist _ _).trans (List.drop_sublist _ _))
    have hnot : id ∉ replicasOf m.topo.list n k i := fun hid =>
      getElem?_ne_of_mem_replicasOf hm.nodup hid hi hget
    obtain ⟨hroles', hcalls', hmarks'⟩ := addSlaves_of_free
      (p := { q with roles := setEntry q.roles id [] }) (ipOf m.topo id) hids hnodup hnot hfree
      (setEntry_of_notMem hnew) hnew
    have hfirst : (m.topo.list[i]?).getD "" = id := by rw [hget, Option.getD_some]
    rw [hmaster]
    refine ⟨?_, ?_, fun x hx => ?_⟩
    · rw [hroles', hroles, List.map_append, List.map_singleton, shardOf, hfirst, List.nil_append]
    · rw [hcalls', hcalls, List.flatMap_append, List.flatMap_singleton, callsOf, hfirst]
    · rcases hmarks' x hx with hmark | rfl | hmark
      · obtain ⟨j, hj, hjx⟩ := hmarks x hmark
        exact ⟨j, by omega, hjx⟩
      · exact ⟨i, by omega, Or.inl hget⟩
      · exact ⟨i, by omega, Or.inr hmark⟩

theorem Assignable.rolePlan (hm : Assignable m clusterName n k) (hk : 0 < k) :
    (ClusterManager.rolePlan m clusterName).roles = (List.range n).map (shardOf m.topo.list n k) ∧
      (ClusterManager.rolePlan m clusterName).calls =
        (List.range n).flatMap (callsOf m.topo n k) := by
  have hn : ((m.topo.list.length : ℤ).tdiv m.nodesPerShard).toNat = n := by
    rw [hm.length, hm.nodesPerShard, Nat.cast_mul, Int.mul_tdiv_cancel _ (by omega),
      Int.toNat_natCast]
  obtain ⟨hroles, hcalls, -⟩ := hm.addMasters (Nat.le_refl n) hk
  rw [ClusterManager.rolePlan]
  simp only [hn]
  rw [hm.nodesPerShard, Int.toNat_natCast]
  exact ⟨hroles, hcalls⟩

end Balanced

/-- **The roles are a balanced partition.** When each of the calls succeeds, the code returns a map
of `n` masters with `k - 1` replicas each, in which each node of the list occurs once; and it has
made one call for each replica, with the address of its master. -/
theorem assignMastersAndSlaves_balanced {σ : Type} (h : Handler RedisCmd RedisCmd.Reply σ)
    (m : Manager) (s : σ) (clusterName : String) (n k : ℕ) (hk : 0 < k)
    (hm : Assignable m clusterName n k)
    (hset : (Session.exec h (setSlaves clusterName (rolePlan m clusterName).calls) m s).1.1 =
      .ok ⟨⟩) :
    ∃ roles, (Session.exec h (assignMastersAndSlaves clusterName) m s).1.1 = .ok roles ∧
      roles.length = n ∧ (∀ x ∈ roles, x.2.length = k - 1) ∧ (named roles).Perm m.topo.list ∧
      (rolePlan m clusterName).calls =
        roles.flatMap (fun x => x.2.map fun id => (ipOf m.topo x.1, ipOf m.topo id)) ∧
      Session.sent h (assignMastersAndSlaves clusterName) m s =
        Session.sent h (setSlaves clusterName (rolePlan m clusterName).calls) m s := by
  obtain ⟨hroles, hcalls⟩ := hm.rolePlan hk
  have hshard : m.nodesPerShard ≠ 0 := by
    rw [hm.nodesPerShard]
    omega
  obtain ⟨hr, -, hsent, -⟩ := exec_assignMastersAndSlaves (h := h) clusterName hshard s
  rw [hset, hroles] at hr
  refine ⟨_, hr, by simp, fun x hx => ?_, named_shardOf_perm hm.length hk, ?_, hsent⟩
  · obtain ⟨i, hi, rfl⟩ := List.mem_map.mp hx
    exact length_replicasOf hm.length hk (List.mem_range.mp hi)
  · rw [hcalls, List.flatMap_map]
    rfl

/-- The container of a node of a small cluster. -/
def smallContainer (name ip : String) (hostPort : UInt16) : RuntimeNode where
  name := name
  id := name
  hostIP := "127.0.0.1"
  hostPort := hostPort
  conIp := ip
  conPort := 6379
  clusterName := "m"

/-- The nodes of a small cluster, by their names. -/
def smallNodes (id : String) : Option ClusterNode :=
  ([("a", "10.0.0.1"), ("b", "10.0.0.2"), ("c", "10.0.0.3"), ("d", "10.0.0.4")].lookup id).map
    fun ip => { id := id, ip := ip, port := 6379, nodeType := .master, masterID := "-"
                linkState := "connected", clusterName := "m" }

/-- A manager that has met four nodes, for shards of two. -/
def smallManager : Manager where
  topo :=
    { nodes := smallNodes
      ipToID := fun ip =>
        [("10.0.0.1", "a"), ("10.0.0.2", "b"), ("10.0.0.3", "c"), ("10.0.0.4", "d")].lookup ip
      list := ["a", "b", "c", "d"]
      nodes_id := by
        intro id n hn
        obtain ⟨ip, -, rfl⟩ := Option.map_eq_some_iff.mp hn
        rfl }
  nodeManager := BaseNodeManager.addNode (BaseNodeManager.addNode (BaseNodeManager.addNode
    (BaseNodeManager.addNode {} (smallContainer "m-redis-1" "10.0.0.1" 40001))
    (smallContainer "m-redis-2" "10.0.0.2" 40002)) (smallContainer "m-redis-3" "10.0.0.3" 40003))
    (smallContainer "m-redis-4" "10.0.0.4" 40004)
  nodesPerShard := 2

theorem assignable_smallManager : Assignable smallManager "m" 2 2 where
  nodesPerShard := rfl
  length := rfl
  nodup := by decide
  nodes := by
    intro id hid
    have hid : id = "a" ∨ id = "b" ∨ id = "c" ∨ id = "d" := by simpa [smallManager] using hid
    rcases hid with rfl | rfl | rfl | rfl <;> exact ⟨_, rfl, rfl, rfl⟩
  roleSet _ := rfl

/-- Four nodes are dealt out as two shards of two. -/
theorem assignMastersAndSlaves_small :
    ∃ roles, (Session.exec (frozenRedis "") (assignMastersAndSlaves "m") smallManager ()).1.1 =
        .ok roles ∧ roles.length = 2 ∧ ∀ x ∈ roles, x.2.length = 1 := by
  obtain ⟨roles, hok, hlen, hreplicas, -⟩ := assignMastersAndSlaves_balanced (frozenRedis "")
    smallManager () "m" 2 2 (by decide) assignable_smallManager (by decide +kernel)
  exact ⟨roles, hok, hlen, hreplicas⟩

end ClusterManager
