import ClusterManager.Lib.Crew
import ClusterManager.Model.Execution
import ClusterManager.Model.SlotMigration

/-!
# Slots moved side by side

`executeSlotMigration` runs the groups of a plan side by side, each with sixteen workers,
and `ClusterManager.Model.Execution` only says of this that every task comes to some result.
Here the workers are seen at the commands they send: they all talk to the same nodes, and
between two commands of one migration any number of commands of others may be carried out.

`clusterHandler` is the cluster they talk to. It keeps a state for every slot, and finds out
from a command itself which slot it is about: from the slot it names, or from its keys. So
that a migration stays away from the slots of the others is not built in; it is a fact
about `migrateSlotShared` (`migrateSlotShared_onSlot`), which names its own slot throughout and
asks for no key but those that `CLUSTER GETKEYSINSLOT` has listed for it.

What a slot's state is, and what a command does to it, is left open, and so are the failures:
they may depend on the task, the command and the slot's state in any way.
`executeSlotMigration_inOrder` is then what the library of crews says of workers with cells
of their own.
-/

namespace ClusterManager

variable {σ : Type}

/-! ### The cluster -/

/-- The slot a command is about, none when its keys have no slot in common. -/
def SlotCmd.slot? (hashSlot : String → ℤ) : SlotCmd → Option ℤ
  | .setImporting slot _ | .setMigrating slot _ | .getKeysInSlot slot _ | .setNode _ slot _ =>
    some slot
  | .memoryUsage key | .migrateCopy _ _ key _ | .del key | .existsKey key => some (hashSlot key)
  | .migrateKeys _ _ [] _ => none
  | .migrateKeys _ _ (key :: keys) _ =>
    if ∀ k ∈ keys, hashSlot k = hashSlot key then some (hashSlot key) else none

/-- The error of a command that is about no one slot. -/
def SlotCmd.crossSlot : (c : SlotCmd) → c.Reply
  | .getKeysInSlot _ _ | .memoryUsage _ | .existsKey _ | .setImporting _ _ | .setMigrating _ _
  | .migrateKeys _ _ _ _ | .migrateCopy _ _ _ _ | .del _ | .setNode _ _ _ =>
    .error "CROSSSLOT Keys in request don't hash to the same slot"

/-- `h` where a node lists for a slot only keys that belong there. -/
def listsOwnKeys (hashSlot : String → ℤ) (h : Handler SlotCmd SlotCmd.Reply σ) :
    Handler SlotCmd SlotCmd.Reply σ := fun s c =>
  match c with
  | .getKeysInSlot slot count =>
    let r : Except String (List String) × σ := h s (.getKeysInSlot slot count)
    (r.1.map fun keys => keys.filter fun k => hashSlot k = slot, r.2)
  | c => h s c

/-- The cluster, a state for each slot: a command is answered from the state of its slot, as
`h` says, and changes that state only. -/
def clusterHandler (hashSlot : String → ℤ) (h : Handler SlotCmd SlotCmd.Reply σ) :
    Handler SlotCmd SlotCmd.Reply (ℤ → σ) := fun st c =>
  match c.slot? hashSlot with
  | some slot =>
    let r := listsOwnKeys hashSlot h (st slot) c
    (r.1, Function.update st slot r.2)
  | none => (c.crossSlot, st)

/-! ### A migration keeps to its slot -/

section OwnSlot

variable {hashSlot : String → ℤ} {h : Handler SlotCmd SlotCmd.Reply σ}

variable (hashSlot h) in
/-- The program sends commands about `slot` only. -/
abbrev OnSlot {α : Type} (slot : ℤ) (Q : α → Prop) (p : SlotProgram α) : Prop :=
  p.ActsOn (clusterHandler hashSlot h) (listsOwnKeys hashSlot h) slot Q

theorem sendCmd_onSlot {c : SlotCmd} {slot : ℤ} (hc : c.slot? hashSlot = some slot)
    {Q : c.Reply → Prop} (hQ : ∀ s, Q (listsOwnKeys hashSlot h s c).1) :
    OnSlot hashSlot h slot Q (sendCmd c) := by
  refine Program.ActsOn.send (fun st => ?_) hQ
  rw [clusterHandler, hc]

theorem setupSlotMigration_onSlot (t : SlotTask) :
    OnSlot hashSlot h t.slot (fun _ => True) (setupSlotMigration t) := by
  have himp : OnSlot hashSlot h t.slot (fun _ => True) (sendCmd (.setImporting t.slot t.fromID)) :=
    sendCmd_onSlot rfl fun _ => trivial
  have hmig : OnSlot hashSlot h t.slot (fun _ => True) (sendCmd (.setMigrating t.slot t.toID)) :=
    sendCmd_onSlot rfl fun _ => trivial
  refine himp.bind fun r _ => ?_
  cases r with
  | error err => trivial
  | ok _ =>
    refine hmig.bind fun r _ => ?_
    cases r <;> trivial

theorem finalizeSlotMigration_onSlot (t : SlotTask) :
    OnSlot hashSlot h t.slot (fun _ => True) (finalizeSlotMigration t) := by
  have hset : ∀ side, OnSlot hashSlot h t.slot (fun _ => True)
      (sendCmd (.setNode side t.slot t.toID)) := fun _ => sendCmd_onSlot rfl fun _ => trivial
  refine (hset .dest).bind fun r _ => ?_
  cases r with
  | error err => trivial
  | ok _ =>
    refine (hset .source).bind fun r _ => ?_
    cases r <;> trivial

/-- The keys a slot is asked for belong there. -/
theorem getKeysInSlot_onSlot (slot : ℤ) (count : ℕ) :
    OnSlot hashSlot h slot
      (fun r : Except String (List String) => ∀ k ∈ r.toOption.getD [], hashSlot k = slot)
      (sendCmd (.getKeysInSlot slot count)) := by
  refine sendCmd_onSlot rfl fun s => ?_
  rw [listsOwnKeys]
  cases (h s (.getKeysInSlot slot count)).1 with
  | error err => simp [Except.map, Except.toOption]
  | ok keys => simp [Except.map, Except.toOption]

variable {t : SlotTask} {keys : List String} (hkeys : ∀ k ∈ keys, hashSlot k = t.slot)

include hkeys

theorem migrateKeyBatch_onSlot (hne : keys ≠ []) (timeoutMs : ℕ) :
    OnSlot hashSlot h t.slot (fun _ => True) (migrateKeyBatch t keys timeoutMs) := by
  have hslot : (batchCmd t keys timeoutMs).slot? hashSlot = some t.slot := by
    cases keys with
    | nil => exact absurd rfl hne
    | cons key keys =>
      have hkey := hkeys key List.mem_cons_self
      simp only [SlotCmd.slot?]
      rw [if_pos, hkey]
      exact fun k hk => (hkeys k (List.mem_cons_of_mem _ hk)).trans hkey.symm
  have hsend : OnSlot hashSlot h t.slot (fun _ => True) (sendCmd (batchCmd t keys timeoutMs)) :=
    sendCmd_onSlot hslot fun _ => trivial
  exact hsend.bind fun _ _ => trivial

theorem classifyKeys_onSlot : OnSlot hashSlot h t.slot
    (fun r => (∀ k ∈ r.1, hashSlot k = t.slot) ∧ ∀ x ∈ r.2.1, hashSlot x.1 = t.slot)
    (classifyKeys keys) := by
  induction keys with
  | nil => exact ⟨nofun, nofun⟩
  | cons key keys ih =>
    obtain ⟨hkey, hrest⟩ := List.forall_mem_cons.mp hkeys
    have hsize : OnSlot hashSlot h t.slot (fun _ => True) (sendCmd (.memoryUsage key)) :=
      sendCmd_onSlot (by rw [SlotCmd.slot?, hkey]) fun _ => trivial
    rw [classifyKeys]
    refine hsize.bind fun size _ => (ih hrest).bind ?_
    rintro ⟨normal, big, failed⟩ ⟨hnormal, hbig⟩
    cases size with
    | error err => exact ⟨hnormal, hbig⟩
    | ok size =>
      dsimp only
      split
      · exact ⟨hnormal, List.forall_mem_cons.mpr ⟨hkey, hbig⟩⟩
      · exact ⟨List.forall_mem_cons.mpr ⟨hkey, hnormal⟩, hbig⟩

theorem filterExistingKeys_onSlot : OnSlot hashSlot h t.slot
    (fun r => ∀ k ∈ r, hashSlot k = t.slot) (filterExistingKeys keys) := by
  induction keys with
  | nil => exact fun k hk => absurd hk List.not_mem_nil
  | cons key keys ih =>
    obtain ⟨hkey, hrest⟩ := List.forall_mem_cons.mp hkeys
    have hexists : OnSlot hashSlot h t.slot (fun _ => True) (sendCmd (.existsKey key)) :=
      sendCmd_onSlot (by rw [SlotCmd.slot?, hkey]) fun _ => trivial
    rw [filterExistingKeys]
    refine hexists.bind fun r _ => (ih hrest).bind fun result hresult => ?_
    cases r with
    | error err => exact hresult
    | ok n =>
      dsimp only
      split
      · exact List.forall_mem_cons.mpr ⟨hkey, hresult⟩
      · exact hresult

theorem migrateChunk_onSlot : OnSlot hashSlot h t.slot (fun _ => True) (migrateChunk t keys) := by
  rw [migrateChunk]
  refine (filterExistingKeys_onSlot hkeys).bind fun active hactive => ?_
  split
  · exact migrateKeyBatch_onSlot hactive ‹_› 5000
  · trivial

omit hkeys in
theorem migrateBigKey_onSlot {key : String} (hkey : hashSlot key = t.slot) (size : ℕ) :
    OnSlot hashSlot h t.slot (fun _ => True) (migrateBigKey t key size) := by
  have hcopy : OnSlot hashSlot h t.slot (fun _ => True) (sendCmd (copyCmd t key size)) :=
    sendCmd_onSlot (by rw [SlotCmd.slot?, hkey]) fun _ => trivial
  have hdel : OnSlot hashSlot h t.slot (fun _ => True) (sendCmd (.del key)) :=
    sendCmd_onSlot (by rw [SlotCmd.slot?, hkey]) fun _ => trivial
  refine hcopy.bind fun r _ => ?_
  cases r with
  | error err => trivial
  | ok _ => exact hdel.bind fun _ _ => trivial

theorem migrateSlotKeys_onSlot (hne : keys ≠ []) :
    OnSlot hashSlot h t.slot (fun _ => True) (migrateSlotKeys t keys) := by
  rw [migrateSlotKeys]
  split
  · exact migrateKeyBatch_onSlot hkeys hne 5000
  · refine (classifyKeys_onSlot hkeys).bind ?_
    rintro ⟨normal, big, failed⟩ ⟨hnormal, hbig⟩
    refine Program.ActsOn.bind (Q := fun _ => True) (Program.ActsOn.forM ?_) fun _ _ => ?_
    · rintro ⟨key, size⟩ hx
      exact (migrateBigKey_onSlot (hbig _ hx) size).bind fun _ _ => trivial
    · refine Program.ActsOn.forM fun chunk hchunk => migrateChunk_onSlot fun k hk => hnormal k ?_
      rw [← flatten_chunks (chunkSize_pos normal.length) normal]
      exact List.mem_flatten.mpr ⟨chunk, hchunk, hk⟩

end OwnSlot

/-- **A migration keeps to its slot.** -/
theorem migrateSlotShared_onSlot (hashSlot : String → ℤ) (h : Handler SlotCmd SlotCmd.Reply σ)
    (t : SlotTask) : OnSlot hashSlot h t.slot (fun _ => True) (migrateSlotShared t) := by
  rw [migrateSlotShared]
  refine (setupSlotMigration_onSlot t).bind fun r _ => ?_
  cases r with
  | error err => trivial
  | ok _ =>
    refine (getKeysInSlot_onSlot t.slot 1000).bind fun r hr => ?_
    dsimp only
    split
    · exact (migrateSlotKeys_onSlot hr ‹_›).bind fun _ _ => finalizeSlotMigration_onSlot t
    · exact finalizeSlotMigration_onSlot t

/-! ### The groups side by side -/

section Runs

variable (hashSlot : String → ℤ) (h : SlotTask → Handler SlotCmd SlotCmd.Reply σ)

/-- One worker takes a task, or sends a command of the task it is at, or is done with it. -/
abbrev MigrationStep (z z' : List (Crew SlotTask SlotCmd SlotCmd.Reply (Except String Unit)) ×
    (ℤ → σ)) : Prop :=
  Crew.Step migrationWorkers migrateSlotShared (fun t => clusterHandler hashSlot (h t)) z z'

/-- `n` steps of the workers of `executeSlotMigration`, from the moment the tasks are queued. -/
abbrev MigrationRun (tasks : List SlotTask) (st : ℤ → σ) (n : ℕ)
    (z : List (Crew SlotTask SlotCmd SlotCmd.Reply (Except String Unit)) × (ℤ → σ)) : Prop :=
  Crew.Run migrationWorkers migrateSlotShared (fun t => clusterHandler hashSlot (h t)) n
    (Crew.start ((groupSlotTasks tasks).map MigrationGroup.tasks), st) z

/-- The tasks one after the other: the results, and the slots they leave. -/
def migrateInOrder (tasks : List SlotTask) (st : ℤ → σ) :
    List (SlotTask × Except String Unit) × (ℤ → σ) :=
  Crew.inOrder migrateSlotShared (fun t => clusterHandler hashSlot (h t)) tasks st

variable {hashSlot h} {tasks : List SlotTask} {st : ℤ → σ} {n : ℕ}
  {z : List (Crew SlotTask SlotCmd SlotCmd.Reply (Except String Unit)) × (ℤ → σ)}

theorem flatten_groupSlotTasks_perm (tasks : List SlotTask) :
    ((groupSlotTasks tasks).map MigrationGroup.tasks).flatten.Perm tasks := by
  rw [← List.flatMap_def]
  exact groupSlotTasks_perm tasks

/-- Without their commands, the workers execute the groups. -/
theorem MigrationRun.executes (hrun : MigrationRun hashSlot h tasks st n z)
    (hidle : Crew.Idle z.1) : Executes (groupSlotTasks tasks) (Crew.results z.1) := by
  have hpool := hrun.pools
  rw [Crew.map_pool_start] at hpool
  exact ⟨_, hpool, hidle.pools, by rw [Crew.results_pools]⟩

variable (hashSlot h st) in
/-- **Moving slots side by side is moving them one after the other.** The workers always come to
an end. When they have, each task has been attempted once, its result is the one it has when the
tasks are run in the order of the list, and so is the state of every slot. -/
theorem executeSlotMigration_inOrder (hslots : (tasks.map SlotTask.slot).Nodup) :
    (∃ bound, ∀ n z, MigrationRun hashSlot h tasks st n z →
      n ≤ bound ∧ (Crew.Idle z.1 ∨ ∃ z', MigrationStep hashSlot h z z')) ∧
    ∀ n z, MigrationRun hashSlot h tasks st n z → Crew.Idle z.1 →
      ((Crew.results z.1).map Prod.fst).Perm tasks ∧
        (Crew.results z.1).Perm (migrateInOrder hashSlot h tasks st).1 ∧
          z.2 = (migrateInOrder hashSlot h tasks st).2 := by
  have hperm := flatten_groupSlotTasks_perm tasks
  have hnodup := (hperm.map SlotTask.slot).nodup_iff.mpr hslots
  have hacts := fun t (_ : t ∈ ((groupSlotTasks tasks).map MigrationGroup.tasks).flatten) =>
    migrateSlotShared_onSlot hashSlot (h t) t
  constructor
  · refine ⟨_, fun n z hrun => ⟨hrun.bounded hnodup hacts, ?_⟩⟩
    by_cases hidle : Crew.Idle z.1
    · exact Or.inl hidle
    · exact Or.inr (Crew.Step.exists (by decide) hidle z.2)
  · intro n z hrun hidle
    exact ⟨(MigrationRun.executes hrun hidle).perm, hrun.inOrder hnodup hacts hperm hidle⟩

end Runs

/-- Two slots of one master, with a key each. -/
def twoSlots : ℤ → SlotState := fun slot =>
  { source := [⟨if slot = 1 then "a" else "b", "v", 1⟩], nodup := by simp, owner := fun _ => "m1" }

/-- The tasks that move them to another master. -/
def twoSlotTasks : List SlotTask := [1, 2].map fun slot =>
  { slot := slot, fromID := "m1", fromIP := "10.88.0.1", toID := "m2", toIP := "10.88.0.2"
    destHostPort := 40002, fromHostPort := 40001, containerPort := 6379 }

/-- The destination refuses to import the second slot. -/
def secondRefused : Faults where
  error c := if c = .setImporting 2 "m1" then some "ERR" else none

/-- The second slot cannot be opened for import, and whatever the order of the commands, the
first one is moved with its key and the second one stays as it is. -/
theorem inOrder_of_two_slots :
    (twoSlotTasks.map SlotTask.slot).Nodup ∧
      ∀ n z, MigrationRun (fun k => if k = "a" then 1 else 2)
          (fun _ => slotHandler secondRefused) twoSlotTasks twoSlots n z →
        Crew.Idle z.1 →
          ((z.2 1).owner .dest, (z.2 1).keys, (z.2 1).dest "a") = ("m2", [], some "v") ∧
            ((z.2 2).owner .dest, (z.2 2).keys, (z.2 2).dest "b") = ("m1", ["b"], none) := by
  refine ⟨by decide, fun n z hrun hidle => ?_⟩
  obtain ⟨-, -, hstore⟩ := (executeSlotMigration_inOrder _ _ _ (by decide)).2 n z hrun hidle
  rw [hstore]
  decide +kernel

end ClusterManager
