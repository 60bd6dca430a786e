import Mathlib.Data.List.Nodup
import ClusterManager.Model.Nodes
import ClusterManager.Model.PlannedTasks

/-!
# Giving out the slots, and looking whether it has worked

`allocateSlots` cuts the slots into shares, one for each master, sends each master its share, and
then asks every tracked node up to ten times whether it sees the shares.

The cut is made twice: by its bounds when the shares are sent (`slotShare`), and by a quotient and a
remainder when they are looked for (`expectedSlots`). The two agree for every number of masters,
more than there are slots included, so that a reply which shows what has been sent is accepted
at once (`allocation_accepted`).

The converse is what fails. The verdict is not passed on the reply but on the counts that the
topology remembers (`Topology.noteSlots`): a master that the reply leaves out keeps the count of an
earlier reply, of another node even. And when the ten tries are over, the answer is that all is
well. `Verdict` says what the replies of a node come to, `survey` what those of all nodes do, and
`allocateSlots_sound_iff` says that the operation is sound exactly when the replies convince it
at every node, or one of them is an error.
-/

namespace ClusterManager

/-! ### The shares -/

section Shares

variable {n i : ℕ}

/-- The end of a share. -/
def shareStop (n i : ℕ) : ℕ :=
  if i = n - 1 then totalSlots else i * (totalSlots / n) + totalSlots / n

theorem slotShare_eq (n i : ℕ) : slotShare n i =
    (List.range (shareStop n i - i * (totalSlots / n))).map (i * (totalSlots / n) + ·) := rfl

theorem mem_slotShare {slot : ℕ} :
    slot ∈ slotShare n i ↔ i * (totalSlots / n) ≤ slot ∧ slot < shareStop n i := by
  rw [slotShare_eq, List.mem_map]
  constructor
  · rintro ⟨j, hj, rfl⟩
    rw [List.mem_range] at hj
    omega
  · rintro ⟨hstart, hstop⟩
    exact ⟨slot - i * (totalSlots / n), List.mem_range.mpr (by omega), by omega⟩

theorem nodup_slotShare (n i : ℕ) : (slotShare n i).Nodup := by
  rw [slotShare_eq]
  exact List.nodup_range.map fun _ _ h => Nat.add_left_cancel h

/-- A share ends where the next one begins. -/
theorem shareStop_le_of_lt {j : ℕ} (hij : i < j) (hj : j < n) :
    shareStop n i ≤ j * (totalSlots / n) := by
  have hne : i ≠ n - 1 := by omega
  have hmul : (i + 1) * (totalSlots / n) ≤ j * (totalSlots / n) := Nat.mul_le_mul_right _ hij
  rw [Nat.succ_mul] at hmul
  rw [shareStop, if_neg hne]
  exact hmul

theorem disjoint_slotShare {j : ℕ} (hi : i < n) (hj : j < n) (hij : i ≠ j) :
    (slotShare n i).Disjoint (slotShare n j) := by
  intro slot hslot hslot'
  rw [mem_slotShare] at hslot hslot'
  rcases Nat.lt_or_gt_of_ne hij with hlt | hlt
  · have hstop := shareStop_le_of_lt hlt hj
    omega
  · have hstop := shareStop_le_of_lt hlt hi
    omega

theorem shareStop_le (hi : i < n) : shareStop n i ≤ totalSlots := by
  by_cases hlast : i = n - 1
  · rw [shareStop, if_pos hlast]
  · have hstop := shareStop_le_of_lt (n := n) (show i < n - 1 by omega) (by omega)
    have hmul : (n - 1) * (totalSlots / n) ≤ n * (totalSlots / n) :=
      Nat.mul_le_mul_right _ (Nat.sub_le n 1)
    have htotal : n * (totalSlots / n) ≤ totalSlots := Nat.mul_div_le totalSlots n
    omega

/-- Every slot is in a share, and nothing else is. -/
theorem exists_mem_slotShare {slot : ℕ} (hn : 1 ≤ n) :
    (∃ i < n, slot ∈ slotShare n i) ↔ slot < totalSlots := by
  constructor
  · rintro ⟨i, hi, hslot⟩
    exact lt_of_lt_of_le (mem_slotShare.mp hslot).2 (shareStop_le hi)
  · intro hslot
    by_cases hlast : (n - 1) * (totalSlots / n) ≤ slot
    · refine ⟨n - 1, by omega, mem_slotShare.mpr ⟨hlast, ?_⟩⟩
      rw [shareStop, if_pos rfl]
      exact hslot
    · -- below the last share the share is told by the quotient
      rw [not_le] at hlast
      have hpos : 0 < totalSlots / n := by
        rcases Nat.eq_zero_or_pos (totalSlots / n) with hzero | hpos
        · rw [hzero, Nat.mul_zero] at hlast
          omega
        · exact hpos
      have hlt : slot / (totalSlots / n) < n - 1 := (Nat.div_lt_iff_lt_mul hpos).mpr hlast
      refine ⟨slot / (totalSlots / n), by omega, mem_slotShare.mpr ⟨Nat.div_mul_le_self _ _, ?_⟩⟩
      rw [shareStop, if_neg (by omega)]
      exact Nat.lt_div_mul_add hpos

/-- **The two computations of a share agree.** -/
theorem length_slotShare (hi : i < n) : (slotShare n i).length = expectedSlots n i := by
  rw [slotShare_eq, List.length_map, List.length_range, shareStop, expectedSlots]
  by_cases hlast : i = n - 1
  · have hdiv : n * (totalSlots / n) + totalSlots % n = totalSlots := Nat.div_add_mod totalSlots n
    have hmul : n * (totalSlots / n) = i * (totalSlots / n) + totalSlots / n := by
      obtain rfl : n = i + 1 := by omega
      exact Nat.succ_mul _ _
    generalize totalSlots / n = q at hdiv hmul ⊢
    by_cases hrem : totalSlots % n = 0
    · rw [if_pos hlast, if_neg (by simp [hrem])]
      omega
    · rw [if_pos hlast, if_pos ⟨hlast, hrem⟩]
      omega
  · rw [if_neg hlast, if_neg fun h => hlast h.1]
    exact Nat.add_sub_cancel_left _ _

end Shares

/-! ### What a reply changes -/

namespace Topology

/-- Note the slots of a node, if it is a master that is known. -/
def noteNode (t : Topology) (node : ClusterNode) : Topology :=
  if node.nodeType = .master ∧ (t.nodes node.id).isSome then
    t.refreshSlots node (calculateSlots node.slots)
  else t

/-- Note the slots of the nodes that a reply shows. -/
def noteSlots (t : Topology) (nodes : List ClusterNode) : Topology :=
  nodes.foldl noteNode t.resetEmptyMasters

/-- Each master is known, with the count that is expected of it. -/
def slotsAgree (t : Topology) : Bool :=
  t.masterIDs.zipIdx.all fun (id, i) =>
    match t.nodes id with
    | none => false
    | some masterNode => masterNode.slotsNum = expectedSlots t.masterIDs.length i

/-- All masters are known. -/
def KnowsMasters (t : Topology) : Prop := ∀ id ∈ t.masterIDs, (t.nodes id).isSome

variable {t : Topology} {nodes : List ClusterNode} {id : String}

/-- Noting slots keeps what noting those of one node keeps. -/
theorem noteSlots_keeps {I : Topology → Prop} (hreset : I t.resetEmptyMasters)
    (hrefresh : ∀ t n v, I t → I (t.refreshSlots n v)) : I (t.noteSlots nodes) := by
  refine List.foldlRecOn nodes _ (motive := I) hreset fun t ht node _ => ?_
  rw [noteNode]
  split
  · exact hrefresh t node _ ht
  · exact ht

@[simp] theorem noteSlots_masterIDs : (t.noteSlots nodes).masterIDs = t.masterIDs :=
  noteSlots_keeps (I := fun t' => t'.masterIDs = t.masterIDs) rfl fun _ _ _ ht => ht

@[simp] theorem isSome_noteSlots : ((t.noteSlots nodes).nodes id).isSome = (t.nodes id).isSome :=
  noteSlots_keeps (I := fun t' => (t'.nodes id).isSome = (t.nodes id).isSome) rfl
    fun _ _ _ ht => (Option.isSome_map).trans ht

theorem KnowsMasters.noteSlots (h : t.KnowsMasters) : (t.noteSlots nodes).KnowsMasters := by
  intro id hid
  rw [noteSlots_masterIDs] at hid
  rw [isSome_noteSlots]
  exact h id hid

theorem slotsNum_refreshSlots {n : ClusterNode} {v : ℤ} (hn : (t.nodes n.id).isSome) :
    (t.refreshSlots n v).slotsNum id = if id = n.id then v else t.slotsNum id := by
  rw [slotsNum, slotsNum, refreshSlots]
  dsimp only
  split
  · rename_i heq
    obtain ⟨n', hn'⟩ := Option.isSome_iff_exists.mp (heq ▸ hn)
    simp [hn']
  · simp

/-- **A master has the count that the reply shows**, if it shows one. -/
theorem slotsNum_noteSlots {v : ℤ} (hid : (t.nodes id).isSome)
    (hall : ∀ n ∈ nodes, n.nodeType = .master → n.id = id → calculateSlots n.slots = v)
    (hex : ∃ n ∈ nodes, n.nodeType = .master ∧ n.id = id) :
    (t.noteSlots nodes).slotsNum id = v := by
  have key : ∀ (l : List ClusterNode) (t : Topology), (t.nodes id).isSome →
      (∀ n ∈ l, n.nodeType = .master → n.id = id → calculateSlots n.slots = v) →
      (t.slotsNum id = v ∨ ∃ n ∈ l, n.nodeType = .master ∧ n.id = id) →
      (l.foldl noteNode t).slotsNum id = v := by
    intro l
    induction l with
    | nil =>
      rintro t - - (hv | ⟨n, hn, -⟩)
      · exact hv
      · cases hn
    | cons n l ih =>
      intro t ht hall hor
      have hall' := fun n' hn' => hall n' (List.mem_cons_of_mem _ hn')
      rw [List.foldl_cons, noteNode]
      split
      · rename_i hn
        refine ih _ ((Option.isSome_map).trans ht) hall' ?_
        rw [slotsNum_refreshSlots hn.2]
        by_cases heq : id = n.id
        · rw [if_pos heq]
          exact Or.inl (hall n List.mem_cons_self hn.1 heq.symm)
        · rw [if_neg heq]
          refine hor.imp_right ?_
          rintro ⟨n', hn', hmaster, hid'⟩
          rcases List.mem_cons.mp hn' with rfl | hn'
          · exact absurd hid'.symm heq
          · exact ⟨n', hn', hmaster, hid'⟩
      · rename_i hn
        refine ih t ht hall' (hor.imp_right ?_)
        rintro ⟨n', hn', hmaster, hid'⟩
        rcases List.mem_cons.mp hn' with rfl | hn'
        · exact absurd ⟨hmaster, hid' ▸ ht⟩ hn
        · exact ⟨n', hn', hmaster, hid'⟩
  exact key nodes t.resetEmptyMasters hid hall (Or.inr hex)

end Topology

section Reads

variable {σ : Type} {h : Handler RedisCmd RedisCmd.Reply σ} {m : Manager} {s : σ}
  {loginNode : RuntimeNode}

/-- The loop that notes the slots. -/
theorem exec_forM_refreshSlots (nodes : List ClusterNode) :
    Session.exec h (forM nodes fun node => do
        let c ← get
        if node.nodeType = .master ∧ (c.topo.nodes node.id).isSome then
          modifyTopo fun t => t.refreshSlots node (calculateSlots node.slots) : ManagerM PUnit)
        m s =
      ((.ok ⟨⟩, { m with topo := nodes.foldl Topology.noteNode m.topo }), s) := by
  induction nodes generalizing m with
  | nil => rfl
  | cons node nodes ih =>
    rw [List.forM_cons, List.foldl_cons, Session.exec_bind, Session.exec_bind, Session.exec_get,
      Topology.noteNode]
    by_cases hnode : node.nodeType = .master ∧ (m.topo.nodes node.id).isSome
    · simp only [if_pos hnode]
      exact ih
    · simp only [if_neg hnode]
      exact ih

theorem sent_forM_refreshSlots (nodes : List ClusterNode) :
    Session.sent h (forM nodes fun node => do
        let c ← get
        if node.nodeType = .master ∧ (c.topo.nodes node.id).isSome then
          modifyTopo fun t => t.refreshSlots node (calculateSlots node.slots) : ManagerM PUnit)
        m s =
      [] := by
  refine Session.Sends.sent_eq_nil
    (Session.Sends.forM fun node _ => Session.Sends.get.bind fun c => ?_)
  exact Session.Sends.ite (Session.Sends.modify _) (Session.Sends.pure _)

/-- A manager that counts no nodes asks nothing. -/
theorem updateSlots_of_num (loginNode : RuntimeNode) (clusterName : String)
    (hnum : m.nodeManager.num = 0) :
    Session.exec h (updateSlots loginNode clusterName) m s = ((.ok ⟨⟩, m), s) ∧
      Session.sent h (updateSlots loginNode clusterName) m s = [] := by
  rw [updateSlots, Session.exec_bind, Session.exec_get, Session.sent_bind, Session.exec_get,
    Session.sent_get]
  simp [hnum]

/-- A manager without containers has nobody to ask. -/
theorem sent_updateSlots_of_nil (loginNode : RuntimeNode) (clusterName : String)
    (hnil : m.nodeManager.nodes = []) :
    Session.sent h (updateSlots loginNode clusterName) m s = [] := by
  have hreset : Session.exec h (modifyTopo Topology.resetEmptyMasters) m s =
      ((.ok ⟨⟩, { m with topo := m.topo.resetEmptyMasters }), s) := rfl
  rw [updateSlots, Session.sent_bind, Session.exec_get, Session.sent_get, List.nil_append]
  dsimp only
  split
  · rfl
  · obtain ⟨hget, hsent⟩ := getClusterNodes_of_nil (h := h) (s := s)
      (m := { m with topo := m.topo.resetEmptyMasters }) hnil loginNode clusterName
    rw [Session.sent_bind_of_ok hreset, Session.sent_bind, hget, hsent]
    rfl

section Asks

variable (hnum : m.nodeManager.num ≠ 0) (hne : m.nodeManager.nodes ≠ [])

include hnum hne

theorem updateSlots_of_error (clusterName : String) {err : String}
    (hr : (h s (.clusterNodes loginNode.clientConnAddr)).1 = .error err) :
    (∃ e, Session.exec h (updateSlots loginNode clusterName) m s =
      ((.error e, { m with topo := m.topo.resetEmptyMasters }),
        (h s (.clusterNodes loginNode.clientConnAddr)).2)) ∧
      Session.sent h (updateSlots loginNode clusterName) m s =
        [(.clusterNodes loginNode.clientConnAddr, s)] := by
  have hreset : Session.exec h (modifyTopo Topology.resetEmptyMasters) m s =
      ((.ok ⟨⟩, { m with topo := m.topo.resetEmptyMasters }), s) := rfl
  rw [updateSlots, Session.exec_bind, Session.exec_get, Session.sent_bind, Session.exec_get,
    Session.sent_get]
  simp only [if_neg hnum]
  rw [Session.exec_bind_of_ok hreset, Session.sent_bind_of_ok hreset]
  obtain ⟨hget, hsent⟩ := getClusterNodes_of_error (h := h) (s := s)
    (m := { m with topo := m.topo.resetEmptyMasters }) hne clusterName hr
  refine ⟨⟨.error ("failed to get cluster nodes: " ++ err), ?_⟩, ?_⟩
  · rw [Session.exec_bind, hget]
  · rw [Session.sent_bind, hget, hsent]
    rfl

/-- **A reply is noted**, and the failing nodes it shows are forgotten. -/
theorem updateSlots_of_ok (clusterName : String) {text : String}
    (hr : (h s (.clusterNodes loginNode.clientConnAddr)).1 = .ok text) :
    Session.exec h (updateSlots loginNode clusterName) m s =
      ((.ok ⟨⟩, { m with topo := m.topo.noteSlots (shownNodes m.nodeManager clusterName text) }),
        afterForget h m.nodeManager clusterName text
          (h s (.clusterNodes loginNode.clientConnAddr)).2) ∧
      ∃ rest, Session.sent h (updateSlots loginNode clusterName) m s =
        (.clusterNodes loginNode.clientConnAddr, s) :: rest ∧
          ∀ x ∈ rest, ∃ addr id, x.1 = .clusterForget addr id := by
  have hreset : Session.exec h (modifyTopo Topology.resetEmptyMasters) m s =
      ((.ok ⟨⟩, { m with topo := m.topo.resetEmptyMasters }), s) := rfl
  obtain ⟨hget, rest, hsent, hforget⟩ := getClusterNodes_of_ok (h := h) (s := s)
    (m := { m with topo := m.topo.resetEmptyMasters }) hne clusterName hr
  rw [updateSlots, Session.exec_bind, Session.exec_get, Session.sent_bind, Session.exec_get,
    Session.sent_get]
  simp only [if_neg hnum]
  rw [Session.exec_bind_of_ok hreset, Session.exec_bind_of_ok hget, Session.sent_bind_of_ok hreset,
    Session.sent_bind_of_ok hget, hsent, exec_forM_refreshSlots, sent_forM_refreshSlots]
  refine ⟨rfl, rest, ?_, hforget⟩
  rw [List.append_nil]
  rfl

end Asks

end Reads

/-! ### What the replies come to -/

/-- A reply shows each master with exactly the slots that are expected of it. -/
def ShowsShares (base : BaseNodeManager) (clusterName : String) (masterIDs : List String)
    (text : String) : Prop :=
  ∀ x ∈ masterIDs.zipIdx,
    (∃ n ∈ shownNodes base clusterName text, n.nodeType = .master ∧ n.id = x.1) ∧
      ∀ n ∈ shownNodes base clusterName text, n.nodeType = .master → n.id = x.1 →
        calculateSlots n.slots = expectedSlots masterIDs.length x.2

instance (base : BaseNodeManager) (clusterName : String) (masterIDs : List String)
    (text : String) : Decidable (ShowsShares base clusterName masterIDs text) :=
  inferInstanceAs (Decidable (∀ _ ∈ _, _))

/-- How the look at a node ends. -/
inductive Verdict where
  /-- The counts agree, and the last reply shows them. -/
  | convinced
  /-- The counts agree with what earlier replies have left of them, or they never do. -/
  | unconvinced
  /-- A reply is an error. -/
  | refused
  deriving DecidableEq, Repr

section Look

variable {σ : Type} (h : Handler RedisCmd RedisCmd.Reply σ) (base : BaseNodeManager)
  (clusterName : String)

/-- What the replies of a node come to that is asked up to `n` times, and the topology and Redis
afterwards. -/
def look (addr : String) : ℕ → Topology → σ → Verdict × Topology × σ
  | 0, t, s => (.unconvinced, t, s)
  | n + 1, t, s =>
    if base.num = 0 then (.unconvinced, t, s)
    else match (h s (.clusterNodes addr)).1 with
      | .error _ => (.refused, t.resetEmptyMasters, (h s (.clusterNodes addr)).2)
      | .ok text =>
        let t' := t.noteSlots (shownNodes base clusterName text)
        let s' := afterForget h base clusterName text (h s (.clusterNodes addr)).2
        if t'.slotsAgree then
          (if ShowsShares base clusterName t.masterIDs text then .convinced else .unconvinced,
            t', s')
        else look addr n t' s'

/-- The addresses of the nodes whose replies convince, asked one after the other. There are none
to tell when a reply is an error. -/
def survey : List RuntimeNode → Topology → σ → Option (List String)
  | [], _, _ => some []
  | node :: nodes, t, s =>
    let r := look h base clusterName node.clientConnAddr 10 t s
    match r.1 with
    | .refused => none
    | .convinced => (survey nodes r.2.1 r.2.2).map (node.clientConnAddr :: ·)
    | .unconvinced => survey nodes r.2.1 r.2.2

/-- The request has been answered by the node at `addr` with a reply that shows the shares. -/
def ReadShares (masterIDs : List String) (addr : String) (x : RedisCmd × σ) : Prop :=
  x.1 = .clusterNodes addr ∧
    ∃ text, shownText h x = some text ∧ ShowsShares base clusterName masterIDs text

variable {h base clusterName} {t : Topology} {s : σ}

/-- Shares that a reply shows are those that are noted. -/
theorem ShowsShares.slotsAgree {text : String}
    (hshows : ShowsShares base clusterName t.masterIDs text) (hknown : t.KnowsMasters) :
    (t.noteSlots (shownNodes base clusterName text)).slotsAgree := by
  rw [Topology.slotsAgree, List.all_eq_true, Topology.noteSlots_masterIDs]
  rintro ⟨id, i⟩ hx
  have hid : (t.nodes id).isSome := hknown id (List.fst_mem_of_mem_zipIdx hx)
  obtain ⟨hex, hall⟩ := hshows _ hx
  have hcount := Topology.slotsNum_noteSlots hid hall hex
  have hsome : ((t.noteSlots (shownNodes base clusterName text)).nodes id).isSome := by
    rwa [Topology.isSome_noteSlots]
  obtain ⟨n, hn⟩ := Option.isSome_iff_exists.mp hsome
  rw [Topology.slotsNum, hn] at hcount
  dsimp only
  rw [hn]
  exact decide_eq_true hcount

variable (h base clusterName t s) in
/-- A look keeps the masters, and the nodes they are known by. -/
theorem look_masters (addr : String) (n : ℕ) :
    (look h base clusterName addr n t s).2.1.masterIDs = t.masterIDs ∧
      (t.KnowsMasters → (look h base clusterName addr n t s).2.1.KnowsMasters) := by
  induction n generalizing t s with
  | zero => exact ⟨rfl, fun hknown => hknown⟩
  | succ n ih =>
    rw [look]
    split
    · exact ⟨rfl, fun hknown => hknown⟩
    split
    · exact ⟨rfl, fun hknown => hknown⟩
    dsimp only
    split
    · exact ⟨Topology.noteSlots_masterIDs, fun hknown => hknown.noteSlots⟩
    · obtain ⟨hids, hkeeps⟩ := ih _ _
      exact ⟨hids.trans Topology.noteSlots_masterIDs, fun hknown => hkeeps hknown.noteSlots⟩

end Look

/-! ### The code and the replies -/

section Checks

variable {σ : Type} {h : Handler RedisCmd RedisCmd.Reply σ} {m m₁ : Manager} {s s₁ : σ}
  {node : RuntimeNode} {clusterName : String}

theorem look_of_num {base : BaseNodeManager} (hnum : base.num = 0) (addr : String) (n : ℕ)
    (t : Topology) : look h base clusterName addr n t s = (.unconvinced, t, s) := by
  cases n with
  | zero => rfl
  | succ n => exact if_pos hnum

/-- A try that has read a reply ends the loop when the counts agree. -/
theorem checkSlotCounts_succ (n : ℕ)
    (hread : Session.exec h (updateSlots node clusterName) m s = ((.ok ⟨⟩, m₁), s₁)) :
    Session.exec h (checkSlotCounts node clusterName (n + 1)) m s =
        (if m₁.topo.slotsAgree then ((.ok ⟨⟩, m₁), s₁)
          else Session.exec h (checkSlotCounts node clusterName n) m₁ s₁) ∧
      Session.sent h (checkSlotCounts node clusterName (n + 1)) m s =
        Session.sent h (updateSlots node clusterName) m s ++
          if m₁.topo.slotsAgree then []
          else Session.sent h (checkSlotCounts node clusterName n) m₁ s₁ := by
  rw [checkSlotCounts, Session.exec_bind_of_ok hread, Session.sent_bind_of_ok hread,
    Session.exec_bind, Session.exec_get, Session.sent_bind, Session.exec_get, Session.sent_get,
    List.nil_append]
  dsimp only
  by_cases hnil : m₁.topo.masterIDs = []
  · have hagree : m₁.topo.slotsAgree = true := by simp [Topology.slotsAgree, hnil]
    rw [if_pos hnil, if_pos hagree, if_pos hagree]
    exact ⟨rfl, rfl⟩
  · rw [if_neg hnil]
    change Session.exec h (if m₁.topo.slotsAgree = true then _ else _) m₁ s₁ = _ ∧
      _ ++ Session.sent h (if m₁.topo.slotsAgree = true then _ else _) m₁ s₁ = _
    by_cases hagree : m₁.topo.slotsAgree
    · simp only [if_pos hagree]
      exact ⟨rfl, rfl⟩
    · simp only [if_neg hagree, and_self]

/-- A try that reads an error ends the loop with it. -/
theorem checkSlotCounts_of_error {e : Failure} (n : ℕ)
    (hread : Session.exec h (updateSlots node clusterName) m s = ((.error e, m₁), s₁)) :
    Session.exec h (checkSlotCounts node clusterName (n + 1)) m s = ((.error e, m₁), s₁) ∧
      Session.sent h (checkSlotCounts node clusterName (n + 1)) m s =
        Session.sent h (updateSlots node clusterName) m s := by
  rw [checkSlotCounts, Session.exec_bind, Session.sent_bind, hread]
  exact ⟨rfl, List.append_nil _⟩

variable (hne : m.nodeManager.nodes ≠ [])

include hne

/-- **The loop ends as the replies say.** -/
theorem exec_checkSlotCounts (node : RuntimeNode) (clusterName : String) (n : ℕ) :
    ∃ r, Session.exec h (checkSlotCounts node clusterName n) m s =
        ((r, { m with
          topo := (look h m.nodeManager clusterName node.clientConnAddr n m.topo s).2.1 }),
          (look h m.nodeManager clusterName node.clientConnAddr n m.topo s).2.2) ∧
      (r = .ok ⟨⟩ ↔
        (look h m.nodeManager clusterName node.clientConnAddr n m.topo s).1 ≠ .refused) := by
  induction n generalizing m s with
  | zero => exact ⟨.ok ⟨⟩, rfl, by simp [look]⟩
  | succ n ih =>
    by_cases hnum : m.nodeManager.num = 0
    · have hread := (updateSlots_of_num (h := h) (s := s) node clusterName hnum).1
      rw [(checkSlotCounts_succ n hread).1, look_of_num hnum]
      split
      · exact ⟨.ok ⟨⟩, rfl, by simp⟩
      · have hrest := ih hne (s := s)
        rwa [look_of_num hnum] at hrest
    · rw [look, if_neg hnum]
      rcases hr : (h s (.clusterNodes node.clientConnAddr)).1 with err | text
      · obtain ⟨⟨e, hread⟩, -⟩ := updateSlots_of_error hnum hne clusterName hr
        exact ⟨.error e, (checkSlotCounts_of_error n hread).1, by simp⟩
      · obtain ⟨hread, -⟩ := updateSlots_of_ok hnum hne clusterName hr
        rw [(checkSlotCounts_succ n hread).1]
        dsimp only
        by_cases hagree : (m.topo.noteSlots (shownNodes m.nodeManager clusterName text)).slotsAgree
        · simp only [if_pos hagree]
          refine ⟨.ok ⟨⟩, rfl, ?_⟩
          split <;> simp
        · simp only [if_neg hagree]
          exact ih (m := { m with
            topo := m.topo.noteSlots (shownNodes m.nodeManager clusterName text) }) hne

omit hne in
theorem not_readShares_of_forget {base : BaseNodeManager} {masterIDs : List String} {addr : String}
    {x : RedisCmd × σ} (hx : ∃ addr id, x.1 = .clusterForget addr id) :
    ¬ ReadShares h base clusterName masterIDs addr x := by
  obtain ⟨addr', id, hcmd⟩ := hx
  rintro ⟨hread, -⟩
  rw [hcmd] at hread
  cases hread

omit hne in
theorem readShares_clusterNodes {base : BaseNodeManager} {masterIDs : List String}
    {addr addr' text : String} (hr : (h s (.clusterNodes addr')).1 = .ok text) :
    ReadShares h base clusterName masterIDs addr (.clusterNodes addr', s) ↔
      addr = addr' ∧ ShowsShares base clusterName masterIDs text := by
  have htext : shownText h (.clusterNodes addr', s) = some text := by
    rw [shownText, hr]
    rfl
  rw [ReadShares, htext]
  constructor
  · rintro ⟨haddr, text', ⟨⟩, hshows⟩
    cases haddr
    exact ⟨rfl, hshows⟩
  · rintro ⟨rfl, hshows⟩
    exact ⟨rfl, text, rfl, hshows⟩

/-- **A reply that shows the shares has been read exactly when the node convinces.** -/
theorem readShares_checkSlotCounts (node : RuntimeNode) (clusterName : String)
    (hknown : m.topo.KnowsMasters) (addr : String) (n : ℕ) :
    (∃ x ∈ Session.sent h (checkSlotCounts node clusterName n) m s,
      ReadShares h m.nodeManager clusterName m.topo.masterIDs addr x) ↔
      addr = node.clientConnAddr ∧
        (look h m.nodeManager clusterName node.clientConnAddr n m.topo s).1 = .convinced := by
  induction n generalizing m s with
  | zero => simp [checkSlotCounts, look]
  | succ n ih =>
    by_cases hnum : m.nodeManager.num = 0
    · obtain ⟨hread, hsent⟩ := updateSlots_of_num (h := h) (s := s) node clusterName hnum
      have hrest := ih hne hknown (s := s)
      rw [look_of_num hnum] at hrest ⊢
      rw [(checkSlotCounts_succ n hread).2, hsent, List.nil_append]
      split
      · simp
      · exact hrest
    · rw [look, if_neg hnum]
      rcases hr : (h s (.clusterNodes node.clientConnAddr)).1 with err | text
      · obtain ⟨⟨e, hread⟩, hsent⟩ := updateSlots_of_error hnum hne clusterName hr
        rw [(checkSlotCounts_of_error n hread).2, hsent]
        simp [ReadShares, shownText, hr, Except.toOption]
      · obtain ⟨hread, forgets, hsent, hforgets⟩ := updateSlots_of_ok hnum hne clusterName hr
        have hnot : ¬ ∃ x ∈ forgets,
            ReadShares h m.nodeManager clusterName m.topo.masterIDs addr x := by
          rintro ⟨x, hx, hreads⟩
          exact not_readShares_of_forget (hforgets x hx) hreads
        have hhead : ReadShares h m.nodeManager clusterName m.topo.masterIDs addr
            (.clusterNodes node.clientConnAddr, s) ↔ addr = node.clientConnAddr ∧
              ShowsShares m.nodeManager clusterName m.topo.masterIDs text :=
          readShares_clusterNodes hr
        rw [(checkSlotCounts_succ n hread).2, hsent]
        simp only [List.cons_append, List.mem_cons, List.mem_append, or_and_right, exists_or,
          exists_eq_left, hnot, false_or, hhead]
        by_cases hagree : (m.topo.noteSlots (shownNodes m.nodeManager clusterName text)).slotsAgree
        · simp [hagree]
        · have hshows : ¬ ShowsShares m.nodeManager clusterName m.topo.masterIDs text :=
            fun hshows => hagree (hshows.slotsAgree hknown)
          have hrest := ih (m := { m with
            topo := m.topo.noteSlots (shownNodes m.nodeManager clusterName text) }) hne
            hknown.noteSlots
            (s := afterForget h m.nodeManager clusterName text
              (h s (.clusterNodes node.clientConnAddr)).2)
          rw [Topology.noteSlots_masterIDs] at hrest
          simp only [hshows, hagree, and_false, false_or]
          exact hrest

/-- **What the survey says is what the loop over the nodes does.** -/
theorem exec_forM_checkSlotCounts (clusterName : String) (nodes : List RuntimeNode)
    (hknown : m.topo.KnowsMasters) :
    match survey h m.nodeManager clusterName nodes m.topo s with
    | none => (Session.exec h (forM nodes fun container =>
        checkSlotCounts container clusterName 10 : ManagerM PUnit) m s).1.1 ≠ .ok ⟨⟩
    | some addrs => (Session.exec h (forM nodes fun container =>
        checkSlotCounts container clusterName 10 : ManagerM PUnit) m s).1.1 = .ok ⟨⟩ ∧
      ∀ addr, (∃ x ∈ Session.sent h (forM nodes fun container =>
          checkSlotCounts container clusterName 10 : ManagerM PUnit) m s,
        ReadShares h m.nodeManager clusterName m.topo.masterIDs addr x) ↔ addr ∈ addrs := by
  induction nodes generalizing m s with
  | nil => exact ⟨rfl, fun addr => by simp⟩
  | cons node nodes ih =>
    obtain ⟨r, hexec, hr⟩ := exec_checkSlotCounts (h := h) (s := s) hne node clusterName 10
    have hreads := fun addr =>
      readShares_checkSlotCounts (h := h) (s := s) hne node clusterName hknown addr 10
    obtain ⟨hids, hkeeps⟩ :=
      look_masters h m.nodeManager clusterName m.topo s node.clientConnAddr 10
    have hknown' := hkeeps hknown
    rw [survey]
    generalize look h m.nodeManager clusterName node.clientConnAddr 10 m.topo s = l at *
    obtain ⟨verdict, t, s'⟩ := l
    have hrest := ih (m := { m with topo := t }) (s := s') hne hknown'
    dsimp only at hids hrest hexec hr ⊢
    rw [hids] at hrest
    by_cases hrefused : verdict = .refused
    · subst hrefused
      rcases r with e | _
      · rw [List.forM_cons, Session.exec_bind, hexec]
        exact nofun
      · exact absurd rfl (hr.mp rfl)
    · -- the loop goes on with the next node
      obtain rfl : r = .ok ⟨⟩ := hr.mpr hrefused
      rw [List.forM_cons, Session.exec_bind_of_ok hexec, Session.sent_bind_of_ok hexec]
      simp only [List.mem_append, or_and_right, exists_or, hreads]
      rcases hsurvey : survey h m.nodeManager clusterName nodes t s' with _ | addrs
      · rw [hsurvey] at hrest
        cases verdict with
        | convinced => exact hrest
        | unconvinced => exact hrest
        | refused => exact absurd rfl hrefused
      · rw [hsurvey] at hrest
        obtain ⟨hok, haddrs⟩ := hrest
        cases verdict with
        | convinced =>
          refine ⟨hok, fun addr => ?_⟩
          rw [haddrs]
          simp
        | unconvinced =>
          refine ⟨hok, fun addr => ?_⟩
          rw [haddrs]
          simp
        | refused => exact absurd rfl hrefused

end Checks

/-! ### Sending the shares -/

section Sends

variable {σ : Type} (h : Handler RedisCmd RedisCmd.Reply σ)

/-- The container of the node of a name. -/
def containerOf (base : BaseNodeManager) (t : Topology) (id : String) : Option RuntimeNode :=
  (t.nodes id).bind fun masterNode => base.getNodeByHost masterNode.ip

/-- Where Redis is when each of the masters has been sent its share. There is no such place when
one of them has no address to send it to, or answers with an error. -/
def sendShares (base : BaseNodeManager) (t : Topology) : List (String × ℕ) → σ → Option σ
  | [], s => some s
  | (id, i) :: rest, s =>
    match containerOf base t id with
    | none => none
    | some node =>
      match (h s (.clusterAddSlots node.clientConnAddr (slotShare t.masterIDs.length i))).1 with
      | .error _ => none
      | .ok () => sendShares base t rest
          (h s (.clusterAddSlots node.clientConnAddr (slotShare t.masterIDs.length i))).2

/-- The topology and Redis when the slots have been given out and nothing has been verified yet;
none when giving them out has failed. -/
def allocated (clusterName : String) (m : Manager) (s : σ) : Option (Topology × σ) :=
  match m.nodeManager.nodes with
  | [] => none
  | node :: _ =>
    let read : Option (Topology × σ) :=
      if m.nodeManager.num = 0 then some (m.topo, s)
      else match (h s (.clusterNodes node.clientConnAddr)).1 with
        | .error _ => none
        | .ok text => some (m.topo.noteSlots (shownNodes m.nodeManager clusterName text),
          afterForget h m.nodeManager clusterName text (h s (.clusterNodes node.clientConnAddr)).2)
    read.bind fun (t, s) =>
      if t.masterIDs = [] then none
      else (sendShares h m.nodeManager t t.masterIDs.zipIdx s).map fun s => (t, s)

/-- What `assignSlotsToMasters` does for the master `x.1`, the `x.2`-th one. -/
def assignShare (c : Manager) (x : String × ℕ) : ManagerM PUnit :=
  match c.topo.nodes x.1 with
  | none => Session.fail s!"master node not found for ID {x.1}"
  | some masterNode =>
    match c.nodeManager.getNodeByHost masterNode.ip with
    | none => Session.fail s!"runtime node not found for IP {masterNode.ip}"
    | some port => do
      let r : Except String Unit ←
        ManagerM.redis (.clusterAddSlots port.clientConnAddr
          (slotShare c.topo.masterIDs.length x.2))
      Session.orFail r s!"failed to add slots to master {x.1}: "

theorem assignSlotsToMasters_eq : assignSlotsToMasters = (do
    let c ← get
    if c.topo.masterIDs.length = 0 then
      Session.fail "no available master nodes for slot allocation: no nodes available"
    forM c.topo.masterIDs.zipIdx (assignShare c)) := rfl

/-- The command that sends a master its share. -/
def shareCmd (base : BaseNodeManager) (t : Topology) (x : String × ℕ) : RedisCmd :=
  .clusterAddSlots (((containerOf base t x.1).map RuntimeNode.clientConnAddr).getD "")
    (slotShare t.masterIDs.length x.2)

variable {h} {m : Manager} {s : σ} {x : String × ℕ}

/-- A master without a container is an error. -/
theorem assignShare_of_none (hnode : containerOf m.nodeManager m.topo x.1 = none) :
    ∃ e, Session.exec h (assignShare m x) m s = ((.error e, m), s) := by
  rw [assignShare]
  rw [containerOf] at hnode
  rcases hmaster : m.topo.nodes x.1 with _ | masterNode
  · exact ⟨_, rfl⟩
  · rw [hmaster, Option.bind_some] at hnode
    simp only [hnode]
    exact ⟨_, rfl⟩

/-- A master with a container is sent its share. -/
theorem assignShare_of_some {node : RuntimeNode}
    (hnode : containerOf m.nodeManager m.topo x.1 = some node) :
    assignShare m x = (do
        let r : Except String Unit ← ManagerM.redis (.clusterAddSlots node.clientConnAddr
          (slotShare m.topo.masterIDs.length x.2))
        Session.orFail r s!"failed to add slots to master {x.1}: ") ∧
      shareCmd m.nodeManager m.topo x =
        .clusterAddSlots node.clientConnAddr (slotShare m.topo.masterIDs.length x.2) ∧
      (m.topo.nodes x.1).isSome := by
  refine ⟨?_, by rw [shareCmd, hnode]; rfl, ?_⟩
  · rw [assignShare]
    rw [containerOf] at hnode
    obtain ⟨masterNode, hmaster, hport⟩ := Option.bind_eq_some_iff.mp hnode
    rw [hmaster]
    simp only [hport]
  · obtain ⟨masterNode, hmaster, -⟩ := Option.bind_eq_some_iff.mp hnode
    rw [hmaster]
    rfl

theorem exec_forM_assignShare (l : List (String × ℕ)) :
    match sendShares h m.nodeManager m.topo l s with
    | none => (Session.exec h (forM l (assignShare m)) m s).1.1 ≠ .ok ⟨⟩
    | some s' => Session.exec h (forM l (assignShare m)) m s = ((.ok ⟨⟩, m), s') ∧
      (Session.sent h (forM l (assignShare m)) m s).map Prod.fst =
        l.map (shareCmd m.nodeManager m.topo) ∧
      ∀ x ∈ l, (m.topo.nodes x.1).isSome := by
  induction l generalizing s with
  | nil => exact ⟨rfl, rfl, nofun⟩
  | cons x l ih =>
    rw [sendShares]
    rcases hnode : containerOf m.nodeManager m.topo x.1 with _ | node
    · obtain ⟨e, hexec⟩ := assignShare_of_none (h := h) (s := s) hnode
      rw [List.forM_cons, Session.exec_bind, hexec]
      exact nofun
    obtain ⟨hbody, hcmd, hknown⟩ := assignShare_of_some hnode
    dsimp only
    rcases hr : (h s (.clusterAddSlots node.clientConnAddr
        (slotShare m.topo.masterIDs.length x.2))).1 with err | _
    · rw [List.forM_cons, hbody, Session.exec_bind, Session.exec_bind, ManagerM.exec_redis, hr]
      exact nofun
    · -- the reply is `ok`, so the loop goes on
      have hexec : Session.exec h (assignShare m x) m s = ((.ok ⟨⟩, m), (h s
          (.clusterAddSlots node.clientConnAddr (slotShare m.topo.masterIDs.length x.2))).2) := by
        rw [hbody, Session.exec_bind, ManagerM.exec_redis, hr]
        rfl
      have hsent : (Session.sent h (assignShare m x) m s).map Prod.fst =
          [shareCmd m.nodeManager m.topo x] := by
        rw [hbody, Session.sent_bind, ManagerM.exec_redis, ManagerM.sent_redis, hr, hcmd]
        rfl
      rw [List.forM_cons, Session.exec_bind_of_ok hexec, Session.sent_bind_of_ok hexec,
        List.map_append, hsent]
      have hrest := ih (s := (h s (.clusterAddSlots node.clientConnAddr
        (slotShare m.topo.masterIDs.length x.2))).2)
      dsimp only
      split at hrest
      · exact hrest
      · obtain ⟨hok, hcmds, hall⟩ := hrest
        refine ⟨hok, ?_, List.forall_mem_cons.mpr ⟨hknown, hall⟩⟩
        rw [hcmds]
        rfl

/-- **What the code gives out** is what the replies let it. -/
theorem exec_assignSlotsToMasters :
    match (if m.topo.masterIDs = [] then none
      else sendShares h m.nodeManager m.topo m.topo.masterIDs.zipIdx s) with
    | none => (Session.exec h assignSlotsToMasters m s).1.1 ≠ .ok ⟨⟩
    | some s' => Session.exec h assignSlotsToMasters m s = ((.ok ⟨⟩, m), s') ∧
      (Session.sent h assignSlotsToMasters m s).map Prod.fst =
        m.topo.masterIDs.zipIdx.map (shareCmd m.nodeManager m.topo) ∧ m.topo.KnowsMasters := by
  rw [assignSlotsToMasters_eq, Session.exec_bind, Session.exec_get, Session.sent_bind,
    Session.exec_get, Session.sent_get, List.nil_append]
  by_cases hnil : m.topo.masterIDs = []
  · simp [hnil]
  · have hlen : m.topo.masterIDs.length ≠ 0 := fun hlen => hnil (List.length_eq_zero_iff.mp hlen)
    simp only [if_neg hnil, if_neg hlen]
    have hloop := exec_forM_assignShare (h := h) (m := m) (s := s) m.topo.masterIDs.zipIdx
    split at hloop
    · exact hloop
    · obtain ⟨hok, hcmds, hall⟩ := hloop
      refine ⟨hok, hcmds, fun id hid => ?_⟩
      obtain ⟨i, hi, rfl⟩ := List.getElem_of_mem hid
      exact hall (m.topo.masterIDs[i], i) (List.mk_mem_zipIdx_iff_getElem?.mpr (by simp [hi]))

end Sends

/-! ### Soundness -/

section Soundness

variable {σ : Type} (h : Handler RedisCmd RedisCmd.Reply σ) (clusterName : String) (m : Manager)
  (s : σ)

/-- What `allocateSlots` does before it verifies. -/
def giveOutSlots : ManagerM PUnit := do
  let c ← get
  match c.nodeManager.nodes with
  | [] => Session.fail "no nodes available: no nodes available"
  | node :: _ =>
    updateSlots node clusterName
    assignSlotsToMasters

theorem allocateSlots_eq :
    allocateSlots clusterName = giveOutSlots clusterName >>= fun _ =>
      verifyAllocateSlots clusterName := by
  rw [allocateSlots, giveOutSlots, bind_assoc]
  refine congrArg (get >>= ·) (funext fun c => ?_)
  rcases c.nodeManager.nodes with _ | ⟨node, nodes⟩
  · rfl
  · simp only [bind_assoc]

/-- The requests that are sent for the verification. -/
def verificationSent : List (RedisCmd × σ) :=
  Session.sent h (verifyAllocateSlots clusterName)
    (Session.exec h (giveOutSlots clusterName) m s).1.2
    (Session.exec h (giveOutSlots clusterName) m s).2

/-- The operation returns without an error only if, at each tracked node, a reply that has been
read from it for the verification shows each master with the slots that are expected of it. -/
def VerifiesSoundly : Prop :=
  (Session.exec h (allocateSlots clusterName) m s).1.1 = .ok ⟨⟩ →
    ∀ node ∈ m.nodeManager.nodes, ∃ x ∈ verificationSent h clusterName m s,
      ReadShares h m.nodeManager clusterName m.topo.masterIDs node.clientConnAddr x

/-- Before the verification, too, the code does what the replies let it. -/
theorem exec_giveOutSlots :
    match allocated h clusterName m s with
    | none => (Session.exec h (giveOutSlots clusterName) m s).1.1 ≠ .ok ⟨⟩
    | some (t, s') => Session.exec h (giveOutSlots clusterName) m s =
        ((.ok ⟨⟩, { m with topo := t }), s') ∧
      t.KnowsMasters ∧ t.masterIDs = m.topo.masterIDs := by
  rw [allocated, giveOutSlots, Session.exec_bind, Session.exec_get]
  rcases hnodes : m.nodeManager.nodes with _ | ⟨node, nodes⟩
  · simp only [hnodes]
    exact nofun
  have hne : m.nodeManager.nodes ≠ [] := by rw [hnodes]; exact List.cons_ne_nil _ _
  simp only [hnodes]
  -- the slots are given out from where the first reply has left the manager
  have hassign : ∀ (t : Topology) (s₁ : σ), t.masterIDs = m.topo.masterIDs →
      Session.exec h (updateSlots node clusterName) m s = ((.ok ⟨⟩, { m with topo := t }), s₁) →
      match (if t.masterIDs = [] then none
        else (sendShares h m.nodeManager t t.masterIDs.zipIdx s₁).map fun s => (t, s)) with
      | none => (Session.exec h (do updateSlots node clusterName; assignSlotsToMasters) m s).1.1 ≠
          .ok ⟨⟩
      | some (t, s') =>
        Session.exec h (do updateSlots node clusterName; assignSlotsToMasters) m s =
            ((.ok ⟨⟩, { m with topo := t }), s') ∧
          t.KnowsMasters ∧ t.masterIDs = m.topo.masterIDs := by
    intro t s₁ hids hread
    rw [Session.exec_bind_of_ok hread]
    have hgive := exec_assignSlotsToMasters (h := h) (m := { m with topo := t }) (s := s₁)
    dsimp only at hgive
    by_cases hnil : t.masterIDs = []
    · rw [if_pos hnil] at hgive ⊢
      exact hgive
    · rw [if_neg hnil] at hgive ⊢
      rcases hshares : sendShares h m.nodeManager t t.masterIDs.zipIdx s₁ with _ | s'
      · rw [hshares] at hgive
        exact hgive
      · rw [hshares] at hgive
        exact ⟨hgive.1, hgive.2.2, hids⟩
  by_cases hnum : m.nodeManager.num = 0
  · simp only [if_pos hnum, Option.bind_some]
    exact hassign m.topo s rfl (updateSlots_of_num node clusterName hnum).1
  · simp only [if_neg hnum]
    rcases hr : (h s (.clusterNodes node.clientConnAddr)).1 with err | text
    · obtain ⟨⟨e, hread⟩, -⟩ := updateSlots_of_error hnum hne clusterName hr
      simp only [Option.bind_none]
      rw [Session.exec_bind, hread]
      exact nofun
    · simp only [Option.bind_some]
      exact hassign _ _ Topology.noteSlots_masterIDs (updateSlots_of_ok hnum hne clusterName hr).1

/-- The addresses of the nodes whose replies convince, when the slots have been given out and all
nodes have been asked. There are none to tell when an error comes first. -/
def convinced : Option (List String) :=
  (allocated h clusterName m s).bind fun (t, s₁) =>
    survey h m.nodeManager clusterName m.nodeManager.nodes t s₁

/-- **What the operation makes of the replies.** -/
theorem exec_allocateSlots :
    match convinced h clusterName m s with
    | none => (Session.exec h (allocateSlots clusterName) m s).1.1 ≠ .ok ⟨⟩
    | some addrs => (Session.exec h (allocateSlots clusterName) m s).1.1 = .ok ⟨⟩ ∧
      ∀ addr, (∃ x ∈ verificationSent h clusterName m s,
        ReadShares h m.nodeManager clusterName m.topo.masterIDs addr x) ↔ addr ∈ addrs := by
  have hgive := exec_giveOutSlots h clusterName m s
  rw [convinced, verificationSent, allocateSlots_eq, Session.exec_bind]
  rcases hall : allocated h clusterName m s with _ | ⟨t, s₁⟩
  · -- giving out the slots has failed
    rw [hall] at hgive
    rcases hexec : Session.exec h (giveOutSlots clusterName) m s with ⟨⟨e | a, m₁⟩, s₁⟩
    · exact nofun
    · exact absurd (by rw [hexec]) hgive
  rw [hall] at hgive
  obtain ⟨hexec, hknown, hids⟩ := hgive
  have hne : m.nodeManager.nodes ≠ [] := by
    intro hnil
    rw [allocated, hnil] at hall
    cases hall
  have hverify := exec_forM_checkSlotCounts (h := h) (m := { m with topo := t }) (s := s₁) hne
    clusterName m.nodeManager.nodes hknown
  dsimp only at hverify
  rw [hids] at hverify
  rw [hexec]
  exact hverify

/-- **When the verification is sound.** An error is returned, because the slots could not be given
out or a reply that was read for the verification is one; or the replies of every node convince:
within ten of them there is one that shows all shares, and none before it that only completes
what earlier ones have left. -/
theorem allocateSlots_sound_iff :
    VerifiesSoundly h clusterName m s ↔
      ∀ addrs, convinced h clusterName m s = some addrs →
        ∀ node ∈ m.nodeManager.nodes, node.clientConnAddr ∈ addrs := by
  have hexec := exec_allocateSlots h clusterName m s
  rw [VerifiesSoundly]
  rcases hcon : convinced h clusterName m s with _ | addrs
  · rw [hcon] at hexec
    exact ⟨fun _ => nofun, fun _ hok => absurd hok hexec⟩
  · rw [hcon] at hexec
    obtain ⟨hok, hreads⟩ := hexec
    constructor
    · rintro hsound addrs' ⟨⟩ node hnode
      exact (hreads _).mp (hsound hok node hnode)
    · intro hconvince _ node hnode
      exact (hreads _).mpr (hconvince addrs rfl node hnode)

end Soundness

/-- The container of a cluster that has only one. -/
def loneContainer : RuntimeNode where
  name := "m-redis-1"
  id := "1"
  hostIP := "127.0.0.1"
  hostPort := 40001
  conIp := "10.88.0.2"
  conPort := 6379
  clusterName := "m"

/-- A manager of a cluster of one master. -/
def loneMaster : Manager where
  topo :=
    { nodes := fun id => if id = "a" then some
        { id := "a", ip := "10.88.0.2", port := 6379, nodeType := .master, masterID := "-"
          linkState := "connected", clusterName := "m" } else none
      masterIDs := ["a"]
      nodes_id := by
        intro id n hn
        split at hn
        · rename_i heq
          cases hn
          exact heq.symm
        · cases hn }
  nodeManager := BaseNodeManager.addNode {} loneContainer
  nodesPerShard := 1

/-- The master never shows a slot, and the operation returns without an error. -/
theorem not_verifiesSoundly_of_frozen :
    ¬ VerifiesSoundly (frozenRedis "a 10.88.0.2:6379@16379 myself,master - 0 0 1 connected") "m"
      loneMaster () := by
  have hexec := exec_allocateSlots
    (frozenRedis "a 10.88.0.2:6379@16379 myself,master - 0 0 1 connected") "m" loneMaster ()
  have hcon : convinced (frozenRedis "a 10.88.0.2:6379@16379 myself,master - 0 0 1 connected") "m"
      loneMaster () = some [] := by decide +kernel
  rw [hcon] at hexec
  intro hsound
  have hnode : ∃ node, node ∈ loneMaster.nodeManager.nodes := ⟨_, List.mem_cons_self⟩
  obtain ⟨node, hnode⟩ := hnode
  exact absurd ((hexec.2 _).mp (hsound hexec.1 node hnode)) List.not_mem_nil

/-! ### A reply that shows what has been sent -/

/-- A reply shows each master with exactly the slots that it has been sent, in ranges that do not
overlap. -/
def ShowsSent (base : BaseNodeManager) (clusterName : String) (masterIDs : List String)
    (text : String) : Prop :=
  ∀ x ∈ masterIDs.zipIdx,
    (∃ n ∈ shownNodes base clusterName text, n.nodeType = .master ∧ n.id = x.1) ∧
      ∀ n ∈ shownNodes base clusterName text, n.nodeType = .master → n.id = x.1 →
        (∀ r ∈ n.slots, r.start ≤ r.stop) ∧ n.slots.Pairwise SlotRange.Disjoint ∧
          ∀ i : ℤ, (∃ r ∈ n.slots, i ∈ r) ↔ ∃ slot ∈ slotShare masterIDs.length x.2, i = slot

/-- The total of disjoint ranges is the number of slots in them. -/
theorem calculateSlots_eq_length {ranges : List SlotRange} {slots : List ℕ}
    (hne : ∀ r ∈ ranges, r.start ≤ r.stop) (hdisjoint : ranges.Pairwise SlotRange.Disjoint)
    (hnodup : slots.Nodup) (hmem : ∀ i : ℤ, (∃ r ∈ ranges, i ∈ r) ↔ ∃ slot ∈ slots, i = slot) :
    calculateSlots ranges = slots.length := by
  have hflat : (ranges.flatMap SlotRange.slotsDown).Nodup := by
    rw [List.nodup_flatMap]
    refine ⟨fun r _ => r.nodup_slotsDown, hdisjoint.imp fun hdis i hi hi' => ?_⟩
    exact hdis i (SlotRange.mem_slotsDown.mp hi) (SlotRange.mem_slotsDown.mp hi')
  have hcast : (slots.map fun slot : ℕ => (slot : ℤ)).Nodup :=
    hnodup.map fun _ _ heq => Int.ofNat_inj.mp heq
  have hperm : (ranges.flatMap SlotRange.slotsDown).Perm
      (slots.map fun slot : ℕ => (slot : ℤ)) := by
    refine (List.perm_ext_iff_of_nodup hflat hcast).mpr fun i => ?_
    simp only [List.mem_flatMap, SlotRange.mem_slotsDown, List.mem_map]
    rw [hmem]
    exact exists_congr fun slot => and_congr_right fun _ => eq_comm
  have hlen := hperm.length_eq
  rw [List.length_map, List.length_flatMap] at hlen
  rw [← hlen, calculateSlots, Nat.cast_list_sum, List.map_map]
  refine congrArg List.sum (List.map_congr_left fun r hr => ?_)
  have hle := hne r hr
  rw [Function.comp_apply, SlotRange.length_slotsDown, SlotRange.size]
  omega

theorem ShowsSent.showsShares {base : BaseNodeManager} {clusterName : String}
    {masterIDs : List String} {text : String} (hsent : ShowsSent base clusterName masterIDs text) :
    ShowsShares base clusterName masterIDs text := by
  intro x hx
  obtain ⟨hex, hall⟩ := hsent x hx
  refine ⟨hex, fun n hn hmaster hid => ?_⟩
  obtain ⟨hne, hdisjoint, hmem⟩ := hall n hn hmaster hid
  have hlt : x.2 < masterIDs.length := by simpa using List.snd_lt_of_mem_zipIdx hx
  rw [calculateSlots_eq_length hne hdisjoint (nodup_slotShare _ _) hmem, length_slotShare hlt]

/-- **The allocation is a partition that the verifier accepts.** For every number of masters the
shares are disjoint, make up all slots, and have the sizes that are looked for. They are what
the masters are sent; and where the next reply of a tracked node shows what has been sent, the
look at this node ends with this reply, and without an error. -/
theorem allocation_accepted (n : ℕ) (hn : 1 ≤ n) :
    (∀ i < n, ∀ j < n, i ≠ j → (slotShare n i).Disjoint (slotShare n j)) ∧
    (∀ slot, (∃ i < n, slot ∈ slotShare n i) ↔ slot < totalSlots) ∧
    (∀ i < n, (slotShare n i).Nodup ∧ (slotShare n i).length = expectedSlots n i) ∧
    ∀ {σ : Type} (h : Handler RedisCmd RedisCmd.Reply σ) (m m' : Manager) (s s' : σ),
      m.topo.masterIDs.length = n →
      Session.exec h assignSlotsToMasters m s = ((.ok ⟨⟩, m'), s') →
        (Session.sent h assignSlotsToMasters m s).map Prod.fst =
          m.topo.masterIDs.zipIdx.map (shareCmd m.nodeManager m.topo) ∧
        ∀ (m₁ : Manager) (s₁ : σ) (container : RuntimeNode) (clusterName text : String) (tries : ℕ),
          m₁.topo.masterIDs = m.topo.masterIDs →
          (∀ id, (m₁.topo.nodes id).isSome = (m.topo.nodes id).isSome) →
          m₁.nodeManager.num = m₁.nodeManager.nodes.length → container ∈ m₁.nodeManager.nodes →
          (h s₁ (.clusterNodes container.clientConnAddr)).1 = .ok text →
          ShowsSent m₁.nodeManager clusterName m₁.topo.masterIDs text →
            (Session.exec h (checkSlotCounts container clusterName (tries + 1)) m₁ s₁).1.1 =
              .ok ⟨⟩ ∧
            ∃ rest, Session.sent h (checkSlotCounts container clusterName (tries + 1)) m₁ s₁ =
                (.clusterNodes container.clientConnAddr, s₁) :: rest ∧
              ∀ x ∈ rest, ∃ addr id, x.1 = .clusterForget addr id := by
  refine ⟨fun i hi j hj hij => disjoint_slotShare hi hj hij, fun slot => exists_mem_slotShare hn,
    fun i hi => ⟨nodup_slotShare n i, length_slotShare hi⟩, ?_⟩
  intro σ h m m' s s' hlen hok
  have hnil : m.topo.masterIDs ≠ [] := by
    rintro hnil
    rw [hnil, List.length_nil] at hlen
    omega
  have hassign := exec_assignSlotsToMasters (h := h) (m := m) (s := s)
  rw [if_neg hnil] at hassign
  rcases hshares : sendShares h m.nodeManager m.topo m.topo.masterIDs.zipIdx s with _ | s₂
  · rw [hshares] at hassign
    exact absurd (by rw [hok]) hassign
  rw [hshares] at hassign
  obtain ⟨-, hcmds, hknown⟩ := hassign
  refine ⟨hcmds, ?_⟩
  intro m₁ s₁ container clusterName text tries hids hsame hcount hcontainer hr hshows
  have hne : m₁.nodeManager.nodes ≠ [] := List.ne_nil_of_mem hcontainer
  have hnum : m₁.nodeManager.num ≠ 0 := by
    rw [hcount]
    exact fun hzero => hne (List.length_eq_zero_iff.mp hzero)
  have hknown₁ : m₁.topo.KnowsMasters := by
    intro id hid
    rw [hsame]
    exact hknown id (hids ▸ hid)
  obtain ⟨hread, rest, hsent, hforget⟩ := updateSlots_of_ok hnum hne clusterName hr
  obtain ⟨hexec, hsents⟩ := checkSlotCounts_succ tries hread
  have hagree := hshows.showsShares.slotsAgree hknown₁
  rw [if_pos hagree] at hexec hsents
  refine ⟨by rw [hexec], rest, ?_, hforget⟩
  rw [hsents, hsent, List.append_nil]

/-- What the one master shows when it has all slots. -/
def allSlotsText : String := "a 10.88.0.2:6379@16379 myself,master - 0 0 1 connected 0-16383"

theorem assignSlotsToMasters_lone (text : String) :
    Session.exec (frozenRedis text) assignSlotsToMasters loneMaster () =
      ((.ok ⟨⟩, loneMaster), ()) := by
  have hcontainer : (containerOf loneMaster.nodeManager loneMaster.topo "a").isSome := by
    decide +kernel
  obtain ⟨node, hcontainer⟩ := Option.isSome_iff_exists.mp hcontainer
  have hshares : sendShares (frozenRedis text) loneMaster.nodeManager loneMaster.topo
      loneMaster.topo.masterIDs.zipIdx () = some () := by
    change sendShares _ _ _ [("a", 0)] () = _
    rw [sendShares, hcontainer]
    simp [frozenRedis, sendShares]
  have hassign := exec_assignSlotsToMasters (h := frozenRedis text) (m := loneMaster) (s := ())
  rw [if_neg (by simp [loneMaster]), hshares] at hassign
  exact hassign.1

/-- One master is sent all slots, shows them, and is accepted. -/
theorem allocation_accepted_of_lone :
    (Session.exec (frozenRedis allSlotsText) (checkSlotCounts loneContainer "m" 10) loneMaster
      ()).1.1 = .ok ⟨⟩ := by
  obtain ⟨-, -, -, hsend⟩ := allocation_accepted 1 (le_refl 1)
  obtain ⟨-, haccept⟩ := hsend _ loneMaster loneMaster () () rfl (assignSlotsToMasters_lone _)
  have hshown : shownNodes loneMaster.nodeManager "m" allSlotsText =
      [{ id := "a", ip := "10.88.0.2", port := 6379, nodeType := .master, masterID := "-"
         linkState := "connected", slots := [⟨0, 16383⟩], clusterName := "m" }] := by decide +kernel
  have hshare : ∀ slot, slot ∈ slotShare 1 0 ↔ slot < 16384 := fun slot => by
    rw [mem_slotShare]
    exact ⟨fun hslot => hslot.2, fun hslot => ⟨Nat.zero_le _, hslot⟩⟩
  have hmem : loneContainer ∈ loneMaster.nodeManager.nodes := List.mem_cons_self
  rw [show 10 = 9 + 1 from rfl]
  refine (haccept loneMaster () loneContainer "m" allSlotsText 9 rfl (fun _ => rfl) rfl hmem rfl
    ?_).1
  rintro ⟨id, i⟩ hx
  obtain ⟨rfl, rfl⟩ : id = "a" ∧ i = 0 := by simpa [loneMaster] using hx
  rw [hshown]
  refine ⟨⟨_, List.mem_cons_self, rfl, rfl⟩, fun n hn _ _ => ?_⟩
  obtain rfl := List.mem_singleton.mp hn
  refine ⟨by simp, List.pairwise_singleton _ _, fun i => ?_⟩
  simp only [List.mem_singleton, exists_eq_left, SlotRange.mem_def]
  constructor
  · rintro ⟨h0, h1⟩
    exact ⟨i.toNat, (hshare _).mpr (by omega), by omega⟩
  · rintro ⟨slot, hslot, rfl⟩
    have hlt := (hshare slot).mp hslot
    omega

end ClusterManager
