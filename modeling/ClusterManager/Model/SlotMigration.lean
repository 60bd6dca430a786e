import Mathlib.Data.List.Nodup
import Mathlib.Data.List.Pairwise
import Mathlib.Data.List.TakeDrop
import ClusterManager.Data.Types
import ClusterManager.Lib.Program

/-!
# Moving one slot

`migrateSlotShared` moves a slot from one node to another: it opens the migration on
both sides, moves the keys it is told of, and hands the slot over. It is modelled as a
`Program` whose requests are the Redis commands it sends, so the order in which it
sends them and what it makes of each reply are those of the code.

What the commands do is said by `slotHandler`, over the state of the one slot on the
two nodes (`SlotState`). Which of them fail is said by a `Faults`: a command that fails
may have taken effect all the same, and a failed `MIGRATE` of several keys may have
moved any of them. The commands of one migration are pairwise different, so a fault per
command is a fault per call.

The replies to `CLUSTER GETKEYSINSLOT`, `MEMORY USAGE`, `EXISTS`, `MIGRATE` and `DEL` are
all dropped or logged, and `GETKEYSINSLOT` is asked for 1000 keys once. So the slot is
handed over whatever has become of its keys;
`migrateSlotShared_handsOverDrained_iff` says exactly when none is left.
-/

namespace ClusterManager

/-! ### The slot and the commands -/

/-- A key of the slot, with its value and the bytes it takes. -/
structure Entry where
  key : String
  value : String
  size : ℕ
  deriving DecidableEq, Repr

/-- The two nodes of a migration. -/
inductive Side where
  | source
  | dest
  deriving DecidableEq, Repr

/-- One slot on the two nodes. -/
structure SlotState where
  /-- What the source holds of the slot, in the order it lists its keys in. -/
  source : List Entry
  /-- A key is held once. -/
  nodup : (source.map Entry.key).Nodup := by decide
  /-- What the destination holds of the slot. -/
  dest : String → Option String := fun _ => none
  /-- From which node the destination is importing the slot. -/
  importing : Option String := none
  /-- To which node the source is migrating the slot. -/
  migrating : Option String := none
  /-- Which node either side takes for the owner. -/
  owner : Side → String

/-- The commands of a migration. -/
inductive SlotCmd where
  /-- `CLUSTER SETSLOT slot IMPORTING fromID`, to the destination. -/
  | setImporting (slot : ℤ) (fromID : String)
  /-- `CLUSTER SETSLOT slot MIGRATING toID`, to the source. -/
  | setMigrating (slot : ℤ) (toID : String)
  | getKeysInSlot (slot : ℤ) (count : ℕ)
  | memoryUsage (key : String)
  /-- `MIGRATE host port "" 0 timeout KEYS key..`. -/
  | migrateKeys (host : String) (port : UInt16) (keys : List String) (timeoutMs : ℕ)
  /-- `MIGRATE host port key 0 timeout COPY REPLACE`. -/
  | migrateCopy (host : String) (port : UInt16) (key : String) (timeoutMs : ℕ)
  | del (key : String)
  | existsKey (key : String)
  /-- `CLUSTER SETSLOT slot NODE toID`, to one of the two. -/
  | setNode (side : Side) (slot : ℤ) (toID : String)
  deriving DecidableEq, Repr

/-- What a command is answered with. -/
abbrev SlotCmd.Reply : SlotCmd → Type
  | .getKeysInSlot _ _ => Except String (List String)
  | .memoryUsage _ => Except String ℕ
  | .existsKey _ => Except String ℕ
  | _ => Except String Unit

abbrev SlotProgram := Program SlotCmd SlotCmd.Reply

/-- Send one command. -/
abbrev sendCmd (c : SlotCmd) : SlotProgram c.Reply := Program.send c

/-- Which commands fail, and what a failed one has done nevertheless. -/
structure Faults where
  /-- The error of a command, none if it succeeds. -/
  error : SlotCmd → Option String := fun _ => none
  /-- Whether a failed command has taken effect. -/
  applied : SlotCmd → Bool := fun _ => false
  /-- Whether a failed `MIGRATE` of several keys has moved a key. -/
  moved : SlotCmd → String → Bool := fun _ _ => false

namespace Faults

variable (f : Faults)

/-- The reply of a command, when there is something to reply. -/
def reply {α : Type} (c : SlotCmd) (a : α) : Except String α :=
  match f.error c with
  | none => .ok a
  | some err => .error err

/-- A command takes effect. -/
def acts (c : SlotCmd) : Bool := (f.error c).isNone || f.applied c

/-- A `MIGRATE` of several keys moves one of them. -/
def moves (c : SlotCmd) (key : String) : Bool := (f.error c).isNone || f.moved c key

end Faults

namespace SlotState

variable (s : SlotState)

/-- The keys the source holds. -/
def keys : List String := s.source.map Entry.key

/-- What the source holds under a key. -/
def find (key : String) : Option Entry := s.source.find? fun e => e.key = key

/-- The source gives up the keys of `p`. -/
def remove (p : String → Bool) : SlotState :=
  { s with
    source := s.source.filter fun e => !p e.key
    nodup := s.nodup.sublist (List.filter_sublist.map _) }

/-- The destination gets the keys of `p` that the source holds. -/
def copy (p : String → Bool) : SlotState :=
  { s with
    dest := fun k => if p k then ((s.find k).map Entry.value).or (s.dest k) else s.dest k }

/-- What a command does to the slot. -/
def effect (f : Faults) (c : SlotCmd) : SlotState :=
  match c with
  | .setImporting _ fromID => if f.acts c then { s with importing := some fromID } else s
  | .setMigrating _ toID => if f.acts c then { s with migrating := some toID } else s
  | .migrateKeys _ _ keys _ =>
    (s.copy fun k => k ∈ keys && f.moves c k).remove fun k => k ∈ keys && f.moves c k
  | .migrateCopy _ _ key _ => if f.acts c then s.copy (· = key) else s
  | .del key => if f.acts c then s.remove (· = key) else s
  | .setNode .source _ toID =>
    if f.acts c then { s with migrating := none, owner := Function.update s.owner .source toID }
    else s
  | .setNode .dest _ toID =>
    if f.acts c then { s with importing := none, owner := Function.update s.owner .dest toID }
    else s
  | .getKeysInSlot _ _ | .memoryUsage _ | .existsKey _ => s

end SlotState

/-- How the two nodes answer the commands of a migration. -/
def slotHandler (f : Faults) : Handler SlotCmd SlotCmd.Reply SlotState := fun s c =>
  (match c with
    | .getKeysInSlot _ count => f.reply c (s.keys.take count)
    | .memoryUsage key => match s.find key with
      | none => .error "redis: nil"
      | some e => f.reply c e.size
    | .existsKey key => f.reply c (if key ∈ s.keys then 1 else 0)
    | .setImporting _ _ | .setMigrating _ _ | .migrateKeys _ _ _ _ | .migrateCopy _ _ _ _
    | .del _ | .setNode _ _ _ => f.reply c (),
   s.effect f c)

/-! ### The code -/

/-- Up to this many keys a slot is moved by one command. -/
def smallKeyBatch : ℕ := 50

/-- More keys are moved in about this many chunks. -/
def chunkDivisor : ℕ := 10

/-- From this size on a key is moved by copy and delete. -/
def bigKeyThreshold : ℕ := 10 * 1024 * 1024

def setupSlotMigration (t : SlotTask) : SlotProgram (Except String Unit) := do
  let r : Except String Unit ← sendCmd (.setImporting t.slot t.fromID)
  match r with
  | .error err => return .error s!"IMPORTING slot {t.slot}: {err}"
  | .ok () =>
    let r : Except String Unit ← sendCmd (.setMigrating t.slot t.toID)
    match r with
    | .error err => return .error s!"MIGRATING slot {t.slot}: {err}"
    | .ok () => return .ok ()

/-- The command `migrateKeyBatch` sends. -/
abbrev batchCmd (t : SlotTask) (keys : List String) (timeoutMs : ℕ) : SlotCmd :=
  .migrateKeys t.toIP t.containerPort keys timeoutMs

/-- Send a batch of keys by one `MIGRATE`; its error is only logged. -/
def migrateKeyBatch (t : SlotTask) (keys : List String) (timeoutMs : ℕ) : SlotProgram Unit := do
  let _ ← sendCmd (batchCmd t keys timeoutMs)
  return ()

/-- Sort the keys into normal ones, big ones with their size, and those whose size is
not known. -/
def classifyKeys : List String →
    SlotProgram (List String × List (String × ℕ) × List String)
  | [] => return ([], [], [])
  | key :: rest => do
    let size : Except String ℕ ← sendCmd (.memoryUsage key)
    let (normal, big, failed) ← classifyKeys rest
    match size with
    | .error _ => return (normal, big, key :: failed)
    | .ok size =>
      if bigKeyThreshold ≤ size then return (normal, (key, size) :: big, failed)
      else return (key :: normal, big, failed)

/-- The time a big key is given: a second for each MiB, between 5 and 60. -/
def bigKeyTimeoutMs (size : ℕ) : ℕ :=
  let timeoutSec := size / 1024 / 1024
  let timeoutSec := if timeoutSec < 5 then 5 else timeoutSec
  let timeoutSec := if 60 < timeoutSec then 60 else timeoutSec
  timeoutSec * 1000

/-- The command that copies a big key. -/
abbrev copyCmd (t : SlotTask) (key : String) (size : ℕ) : SlotCmd :=
  .migrateCopy t.toIP t.containerPort key (bigKeyTimeoutMs size)

def migrateBigKey (t : SlotTask) (key : String) (size : ℕ) :
    SlotProgram (Except String Unit) := do
  let r : Except String Unit ← sendCmd (copyCmd t key size)
  match r with
  | .error err => return .error s!"MIGRATE big key {key}: {err}"
  | .ok () =>
    -- a failed delete is only logged
    let _ ← sendCmd (.del key)
    return .ok ()

/-- The keys that the source says it still holds. -/
def filterExistingKeys : List String → SlotProgram (List String)
  | [] => return []
  | key :: rest => do
    let r : Except String ℕ ← sendCmd (.existsKey key)
    let result ← filterExistingKeys rest
    match r with
    | .error _ => return result
    | .ok n => if 0 < n then return key :: result else return result

/-- A list cut into pieces of `n`. -/
def chunks {α : Type} (n : ℕ) (l : List α) : List (List α) :=
  (List.range ((l.length + n - 1) / n)).map fun j => (l.drop (j * n)).take n

/-- How many of `len` normal keys are sent at a time. -/
def chunkSize (len : ℕ) : ℕ := if len / chunkDivisor < 10 then 10 else len / chunkDivisor

/-- What the loop does with one chunk. -/
def migrateChunk (t : SlotTask) (chunk : List String) : SlotProgram PUnit := do
  let active ← filterExistingKeys chunk
  if active ≠ [] then migrateKeyBatch t active 5000

def migrateSlotKeys (t : SlotTask) (keys : List String) : SlotProgram Unit :=
  if keys.length ≤ smallKeyBatch then migrateKeyBatch t keys 5000
  else do
    let (normal, big, _) ← classifyKeys keys
    forM big fun (key, size) => do
      let _ ← migrateBigKey t key size
      return ()
    forM (chunks (chunkSize normal.length) normal) (migrateChunk t)

def finalizeSlotMigration (t : SlotTask) : SlotProgram (Except String Unit) := do
  let r : Except String Unit ← sendCmd (.setNode .dest t.slot t.toID)
  match r with
  | .error err => return .error s!"SETSLOT NODE dest slot {t.slot}: {err}"
  | .ok () =>
    let r : Except String Unit ← sendCmd (.setNode .source t.slot t.toID)
    match r with
    | .error err => return .error s!"SETSLOT NODE source slot {t.slot}: {err}"
    | .ok () => return .ok ()

/-- Move one slot. -/
def migrateSlotShared (t : SlotTask) : SlotProgram (Except String Unit) := do
  match ← setupSlotMigration t with
  | .error err => return .error err
  | .ok () =>
    let r : Except String (List String) ← sendCmd (.getKeysInSlot t.slot 1000)
    -- the value of a failed command is the empty list
    let keys := r.toOption.getD []
    if keys ≠ [] then migrateSlotKeys t keys
    finalizeSlotMigration t

/-! ### What the source still holds -/

namespace SlotState

variable {s : SlotState} {p : String → Bool} {k : String}

@[simp] theorem mem_keys_remove : k ∈ (s.remove p).keys ↔ k ∈ s.keys ∧ ¬ p k := by
  simp only [keys, remove, List.mem_map, List.mem_filter]
  constructor
  · rintro ⟨e, ⟨he, hp⟩, rfl⟩
    exact ⟨⟨e, he, rfl⟩, by simpa using hp⟩
  · rintro ⟨⟨e, he, rfl⟩, hp⟩
    exact ⟨e, ⟨he, by simpa using hp⟩, rfl⟩

@[simp] theorem keys_copy : (s.copy p).keys = s.keys := rfl

/-- Under a key of the source there is its entry. -/
theorem find_eq_some {e : Entry} (he : e ∈ s.source) : s.find e.key = some e := by
  have hsome : (s.find e.key).isSome := by
    rw [find, List.find?_isSome]
    exact ⟨e, he, by simp⟩
  obtain ⟨e', he'⟩ := Option.isSome_iff_exists.mp hsome
  have hkey : e'.key = e.key := by simpa using List.find?_some he'
  rw [he', Option.some_inj]
  exact List.inj_on_of_nodup_map s.nodup (List.mem_of_find?_eq_some he') he hkey

theorem keys_eq_nil : s.keys = [] ↔ s.source = [] := List.map_eq_nil_iff

end SlotState

section Keys

variable {f : Faults} {s : SlotState} {t : SlotTask} {k : String}

/-- A batch takes the keys that its command moves. -/
theorem mem_keys_migrateKeyBatch {keys : List String} {timeoutMs : ℕ} :
    k ∈ ((migrateKeyBatch t keys timeoutMs).run (slotHandler f) s).2.keys ↔
      k ∈ s.keys ∧ ¬ (k ∈ keys ∧ f.moves (batchCmd t keys timeoutMs) k) := by
  change k ∈ ((s.copy _).remove _).keys ↔ _
  simp

/-- The keys found to be normal, by their entries. -/
def Faults.normal (f : Faults) (es : List Entry) : List String :=
  (es.filter fun e => (f.error (.memoryUsage e.key)).isNone && e.size < bigKeyThreshold).map
    Entry.key

/-- The keys found to be big, by their entries. -/
def Faults.big (f : Faults) (es : List Entry) : List (String × ℕ) :=
  (es.filter fun e => (f.error (.memoryUsage e.key)).isNone && bigKeyThreshold ≤ e.size).map
    fun e => (e.key, e.size)

/-- Sorting the keys changes nothing, and tells normal from big by the sizes of the
entries. -/
theorem classifyKeys_run {es : List Entry} (hes : es ⊆ s.source) :
    ∃ failed, (classifyKeys (es.map Entry.key)).run (slotHandler f) s =
      ((f.normal es, f.big es, failed), s) := by
  induction es with
  | nil => exact ⟨[], rfl⟩
  | cons e es ih =>
    obtain ⟨failed, ih⟩ := ih fun x hx => hes (by simp [hx])
    have hfind := SlotState.find_eq_some (hes (List.mem_cons_self (a := e)))
    have hsend : slotHandler f s (.memoryUsage e.key) =
        (f.reply (.memoryUsage e.key) e.size, s) := by
      simp only [slotHandler, hfind]
      rfl
    rw [List.map_cons, classifyKeys, Program.run_bind, Program.run_send, hsend]
    simp only [Program.run_bind, ih]
    cases herr : f.error (.memoryUsage e.key) with
    | some err =>
      refine ⟨e.key :: failed, ?_⟩
      simp [Faults.reply, herr, Faults.normal, Faults.big]
    | none =>
      refine ⟨failed, ?_⟩
      by_cases hbig : bigKeyThreshold ≤ e.size
      · simp [Faults.reply, herr, Faults.normal, Faults.big, hbig]
      · simp [Faults.reply, herr, Faults.normal, Faults.big, hbig, Nat.not_le.mp hbig]

/-- A big key leaves the source when it has been copied and the delete took effect. -/
theorem mem_keys_migrateBigKey {key : String} {size : ℕ} :
    k ∈ ((migrateBigKey t key size).run (slotHandler f) s).2.keys ↔
      k ∈ s.keys ∧ ¬ (k = key ∧ f.error (copyCmd t key size) = none ∧ f.acts (.del key)) := by
  have hcopy : slotHandler f s (copyCmd t key size) = (f.reply (copyCmd t key size) (),
      if f.acts (copyCmd t key size) then s.copy (· = key) else s) := rfl
  rw [migrateBigKey, Program.run_bind, Program.run_send, hcopy]
  cases herr : f.error (copyCmd t key size) with
  | some err =>
    simp only [Faults.reply, herr, Program.run_pure]
    split <;> simp
  | none =>
    simp only [Faults.reply, herr, Faults.acts, Option.isNone_none, Bool.true_or, if_true,
      Program.run_bind, Program.run_send, Program.run_pure, true_and]
    change k ∈ SlotState.keys (if f.acts (.del key) then _ else _) ↔ _
    by_cases hdel : f.acts (.del key) = true
    · rw [if_pos hdel]
      simp only [Faults.acts] at hdel
      simp [hdel]
    · rw [if_neg hdel]
      simp only [Faults.acts] at hdel
      simp [hdel]

/-- The loop over the big keys. -/
theorem mem_keys_forM_migrateBigKey {big : List (String × ℕ)} :
    k ∈ ((forM big fun (x : String × ℕ) => do
        let _ ← migrateBigKey t x.1 x.2
        return () : SlotProgram PUnit).run (slotHandler f) s).2.keys ↔
      k ∈ s.keys ∧ ∀ x ∈ big, ¬ (k = x.1 ∧ f.error (copyCmd t x.1 x.2) = none ∧
        f.acts (.del x.1)) := by
  induction big generalizing s with
  | nil => simp
  | cons x big ih =>
    rw [List.forM_cons, Program.run_bind, ih, Program.run_bind, Program.run_pure,
      mem_keys_migrateBigKey, List.forall_mem_cons, and_assoc]

/-- Asking for the keys changes nothing, and finds those the source holds, where it
answers. -/
theorem filterExistingKeys_run {keys : List String} (h : keys ⊆ s.keys) :
    (filterExistingKeys keys).run (slotHandler f) s =
      (keys.filter fun k => (f.error (.existsKey k)).isNone, s) := by
  induction keys with
  | nil => rfl
  | cons key keys ih =>
    have hkey : key ∈ s.keys := h (by simp)
    have hsend : slotHandler f s (.existsKey key) = (f.reply (.existsKey key) 1, s) := by
      simp only [slotHandler, hkey, if_true]
      rfl
    rw [filterExistingKeys, Program.run_bind, Program.run_send, hsend]
    simp only [Program.run_bind, ih fun x hx => h (by simp [hx])]
    cases herr : f.error (.existsKey key) <;> simp [Faults.reply, herr]

/-- A key of a chunk that the chunk's command takes off the source. -/
def Faults.takes (f : Faults) (t : SlotTask) (chunk : List String) (k : String) : Prop :=
  k ∈ chunk ∧ (f.error (.existsKey k)).isNone ∧
    f.moves (batchCmd t (chunk.filter fun k => (f.error (.existsKey k)).isNone) 5000) k

theorem mem_keys_migrateChunk {chunk : List String} (h : chunk ⊆ s.keys) :
    k ∈ ((migrateChunk t chunk).run (slotHandler f) s).2.keys ↔
      k ∈ s.keys ∧ ¬ f.takes t chunk k := by
  rw [migrateChunk, Program.run_bind, filterExistingKeys_run h]
  by_cases hnil : (chunk.filter fun k => (f.error (.existsKey k)).isNone) = []
  · have hnone : ¬ f.takes t chunk k := fun ⟨h1, h2, _⟩ => by
      have : k ∈ chunk.filter fun k => (f.error (.existsKey k)).isNone :=
        List.mem_filter.mpr ⟨h1, h2⟩
      rw [hnil] at this
      simp at this
    simp only [hnil, ne_eq, not_true_eq_false, if_false, Program.run_pure, hnone,
      not_false_eq_true, and_true]
  · simp only [ne_eq, hnil, not_false_eq_true, if_true]
    rw [mem_keys_migrateKeyBatch, List.mem_filter, Faults.takes, and_assoc]

/-- The loop over the chunks, which have no key in common. -/
theorem mem_keys_forM_migrateChunk {cs : List (List String)} (h : cs.flatten ⊆ s.keys)
    (hnd : cs.flatten.Nodup) :
    k ∈ ((forM cs (migrateChunk t)).run (slotHandler f) s).2.keys ↔
      k ∈ s.keys ∧ ∀ c ∈ cs, ¬ f.takes t c k := by
  induction cs generalizing s with
  | nil => simp
  | cons c cs ih =>
    rw [List.flatten_cons] at h hnd
    have hc : c ⊆ s.keys := fun x hx => h (by simp [hx])
    rw [List.forM_cons, Program.run_bind, ih _ (List.nodup_append.mp hnd).2.1,
      mem_keys_migrateChunk hc, List.forall_mem_cons, and_assoc]
    -- a later chunk has not been touched by this one
    intro x hx
    rw [mem_keys_migrateChunk hc]
    refine ⟨h (List.mem_append_right _ hx), fun htake => ?_⟩
    exact (List.nodup_append.mp hnd).2.2 x htake.1 x hx rfl

/-! ### All the keys it is told of -/

theorem flatten_map_range_take {α : Type} (l : List α) (n m : ℕ) :
    ((List.range m).map fun j => (l.drop (j * n)).take n).flatten = l.take (m * n) := by
  induction m with
  | zero => simp
  | succ m ih =>
    rw [List.range_succ, List.map_append, List.flatten_append, ih, List.map_singleton,
      List.flatten_singleton, Nat.succ_mul, List.take_add]

/-- The pieces of a list make up the list. -/
theorem flatten_chunks {α : Type} {n : ℕ} (hn : 0 < n) (l : List α) :
    (chunks n l).flatten = l := by
  rw [chunks, flatten_map_range_take, List.take_of_length_le]
  have hdiv := Nat.div_add_mod (l.length + n - 1) n
  have hmod := Nat.mod_lt (l.length + n - 1) hn
  rw [Nat.mul_comm] at hdiv
  omega

theorem chunkSize_pos (len : ℕ) : 0 < chunkSize len := by
  rw [chunkSize]
  split <;> omega

theorem mem_normal {es : List Entry} : k ∈ f.normal es ↔ ∃ e ∈ es,
    f.error (.memoryUsage e.key) = none ∧ e.size < bigKeyThreshold ∧ e.key = k := by
  simp [Faults.normal, and_assoc]

theorem mem_big {es : List Entry} {x : String × ℕ} : x ∈ f.big es ↔ ∃ e ∈ es,
    f.error (.memoryUsage e.key) = none ∧ bigKeyThreshold ≤ e.size ∧ (e.key, e.size) = x := by
  simp [Faults.big, and_assoc]

/-- An entry is told by its key. -/
theorem Entry.eq_of_key {es : List Entry} (hsub : es.Sublist s.source) {e e' : Entry} (he : e ∈ es)
    (he' : e' ∈ es) (hkey : e.key = e'.key) : e = e' :=
  List.inj_on_of_nodup_map s.nodup (hsub.subset he) (hsub.subset he') hkey

/-- What is left of more keys than one command takes. -/
theorem mem_keys_migrateSlotKeys {es : List Entry} (hsub : es.Sublist s.source)
    (hlen : smallKeyBatch < es.length) :
    k ∈ ((migrateSlotKeys t (es.map Entry.key)).run (slotHandler f) s).2.keys ↔
      k ∈ s.keys ∧ (∀ x ∈ f.big es, ¬ (k = x.1 ∧ f.error (copyCmd t x.1 x.2) = none ∧
          f.acts (.del x.1))) ∧
        ∀ c ∈ chunks (chunkSize (f.normal es).length) (f.normal es), ¬ f.takes t c k := by
  obtain ⟨failed, hclass⟩ := classifyKeys_run (f := f) hsub.subset
  rw [migrateSlotKeys, if_neg (by simpa using hlen), Program.run_bind, hclass]
  simp only [Program.run_bind]
  have hflat := flatten_chunks (chunkSize_pos (f.normal es).length) (f.normal es)
  rw [mem_keys_forM_migrateChunk, mem_keys_forM_migrateBigKey, and_assoc]
  · rw [hflat]
    intro x hx
    obtain ⟨e, he, -, hsize, rfl⟩ := mem_normal.mp hx
    refine mem_keys_forM_migrateBigKey.mpr ⟨List.mem_map_of_mem (hsub.subset he), ?_⟩
    rintro y hy ⟨hkey, -⟩
    obtain ⟨e', he', -, hbig, rfl⟩ := mem_big.mp hy
    obtain rfl := Entry.eq_of_key hsub he he' hkey
    omega
  · rw [hflat]
    exact s.nodup.sublist ((List.filter_sublist.trans hsub).map _)

/-- The keys that are not big. -/
def smallKeys (es : List Entry) : List String :=
  (es.filter fun e => e.size < bigKeyThreshold).map Entry.key

/-- The commands for the entries `es` take every one of them off the source: the one
batch moves each key; or the size of each is told, each big key is copied and its
delete takes effect, and each other key is found to exist and is moved with its
chunk. -/
def Faults.Drains (f : Faults) (t : SlotTask) (es : List Entry) : Prop :=
  if es.length ≤ smallKeyBatch then
    ∀ e ∈ es, f.moves (batchCmd t (es.map Entry.key) 5000) e.key
  else
    (∀ e ∈ es, f.error (.memoryUsage e.key) = none) ∧
    (∀ e ∈ es, bigKeyThreshold ≤ e.size →
      f.error (copyCmd t e.key e.size) = none ∧ f.acts (.del e.key)) ∧
    ∀ c ∈ chunks (chunkSize (smallKeys es).length) (smallKeys es), ∀ k ∈ c,
      f.error (.existsKey k) = none ∧ f.moves (batchCmd t c 5000) k

theorem normal_eq_smallKeys {es : List Entry}
    (h : ∀ e ∈ es, f.error (.memoryUsage e.key) = none) : f.normal es = smallKeys es := by
  rw [Faults.normal, smallKeys]
  congr 1
  refine List.filter_congr fun e he => ?_
  simp [h e he]

/-- A key is in one chunk only. -/
theorem eq_of_mem_chunks {es : List Entry} (hsub : es.Sublist s.source) {c c' : List String}
    (hc : c ∈ chunks (chunkSize (f.normal es).length) (f.normal es))
    (hc' : c' ∈ chunks (chunkSize (f.normal es).length) (f.normal es)) (hk : k ∈ c)
    (hk' : k ∈ c') : c = c' := by
  have hnd : (chunks (chunkSize (f.normal es).length) (f.normal es)).flatten.Nodup := by
    rw [flatten_chunks (chunkSize_pos _)]
    exact s.nodup.sublist ((List.filter_sublist.trans hsub).map _)
  have : Std.Symm (List.Disjoint (α := String)) := ⟨fun _ _ h _ ha hb => h hb ha⟩
  by_contra hne
  exact (List.nodup_flatten.mp hnd).2.forall hc hc' hne hk hk'

theorem mem_normal_of_mem_chunks {es : List Entry} {c : List String}
    (hc : c ∈ chunks (chunkSize (f.normal es).length) (f.normal es)) (hk : k ∈ c) :
    k ∈ f.normal es := by
  rw [← flatten_chunks (chunkSize_pos (f.normal es).length) (f.normal es)]
  exact List.mem_flatten.mpr ⟨c, hc, hk⟩

/-- The commands for more keys than one command takes. -/
theorem forall_notMem_iff_of_lt {es : List Entry} (hsub : es.Sublist s.source)
    (hlen : smallKeyBatch < es.length) :
    (∀ e ∈ es, e.key ∉
        ((migrateSlotKeys t (es.map Entry.key)).run (slotHandler f) s).2.keys) ↔
      f.Drains t es := by
  rw [Faults.Drains, if_neg (by omega)]
  constructor
  · intro h
    have hgone : ∀ e ∈ es, ¬ ((∀ x ∈ f.big es, ¬ (e.key = x.1 ∧
        f.error (copyCmd t x.1 x.2) = none ∧ f.acts (.del x.1))) ∧
        ∀ c ∈ chunks (chunkSize (f.normal es).length) (f.normal es),
          ¬ f.takes t c e.key) := fun e he hstay =>
      h e he ((mem_keys_migrateSlotKeys hsub hlen).mpr
        ⟨List.mem_map_of_mem (hsub.subset he), hstay⟩)
    have hmem : ∀ e ∈ es, f.error (.memoryUsage e.key) = none := by
      intro e he
      by_contra herr
      refine hgone e he ⟨?_, ?_⟩
      · rintro x hx ⟨hkey, -⟩
        obtain ⟨e', he', hok, -, rfl⟩ := mem_big.mp hx
        obtain rfl := Entry.eq_of_key hsub he he' hkey
        exact herr hok
      · rintro c hc ⟨hk, -⟩
        obtain ⟨e', he', hok, -, hkey⟩ := mem_normal.mp (mem_normal_of_mem_chunks hc hk)
        obtain rfl := Entry.eq_of_key hsub he' he hkey
        exact herr hok
    refine ⟨hmem, fun e he hbig => ?_, ?_⟩
    · by_contra hcon
      refine hgone e he ⟨?_, ?_⟩
      · rintro x hx ⟨hkey, hx'⟩
        obtain ⟨e', he', -, -, rfl⟩ := mem_big.mp hx
        obtain rfl := Entry.eq_of_key hsub he he' hkey
        exact hcon hx'
      · rintro c hc ⟨hk, -⟩
        obtain ⟨e', he', -, hsize, hkey⟩ := mem_normal.mp (mem_normal_of_mem_chunks hc hk)
        obtain rfl := Entry.eq_of_key hsub he' he hkey
        omega
    · rw [← normal_eq_smallKeys hmem]
      intro c hc
      -- every key of the chunk has been taken, and only its own chunk can have done so
      have htakes : ∀ k ∈ c, f.takes t c k := by
        intro k hk
        obtain ⟨e, he, -, hsize, rfl⟩ := mem_normal.mp (mem_normal_of_mem_chunks hc hk)
        by_contra hcon
        refine hgone e he ⟨?_, ?_⟩
        · rintro x hx ⟨hkey, -⟩
          obtain ⟨e', he', -, hbig, rfl⟩ := mem_big.mp hx
          obtain rfl := Entry.eq_of_key hsub he he' hkey
          omega
        · intro c' hc' htake
          rw [← eq_of_mem_chunks hsub hc hc' hk htake.1] at htake
          exact hcon htake
      have hall : (c.filter fun k => (f.error (.existsKey k)).isNone) = c :=
        List.filter_eq_self.mpr fun k hk => (htakes k hk).2.1
      intro k hk
      obtain ⟨-, hex, hmoves⟩ := htakes k hk
      rw [hall] at hmoves
      exact ⟨Option.isNone_iff_eq_none.mp hex, hmoves⟩
  · rintro ⟨hmem, hbig, hchunks⟩ e he hcon
    rw [← normal_eq_smallKeys hmem] at hchunks
    obtain ⟨-, hnbig, hntake⟩ := (mem_keys_migrateSlotKeys hsub hlen).mp hcon
    rcases Nat.lt_or_ge e.size bigKeyThreshold with hsize | hsize
    · have hnorm : e.key ∈ f.normal es := mem_normal.mpr ⟨e, he, hmem e he, hsize, rfl⟩
      rw [← flatten_chunks (chunkSize_pos (f.normal es).length) (f.normal es)] at hnorm
      obtain ⟨c, hc, hk⟩ := List.mem_flatten.mp hnorm
      have hall : (c.filter fun k => (f.error (.existsKey k)).isNone) = c :=
        List.filter_eq_self.mpr fun k hk =>
          Option.isNone_iff_eq_none.mpr (hchunks c hc k hk).1
      refine hntake c hc ⟨hk, Option.isNone_iff_eq_none.mpr (hchunks c hc _ hk).1, ?_⟩
      rw [hall]
      exact (hchunks c hc _ hk).2
    · exact hnbig _ (mem_big.mpr ⟨e, he, hmem e he, hsize, rfl⟩) ⟨rfl, hbig e he hsize⟩

/-- **The keys it is told of are gone exactly when their commands drain them.** -/
theorem forall_notMem_iff {es : List Entry} (hsub : es.Sublist s.source) :
    (∀ e ∈ es, e.key ∉
        ((migrateSlotKeys t (es.map Entry.key)).run (slotHandler f) s).2.keys) ↔
      f.Drains t es := by
  rcases Nat.lt_or_ge smallKeyBatch es.length with hlen | hlen
  · exact forall_notMem_iff_of_lt hsub hlen
  · rw [Faults.Drains, if_pos hlen, migrateSlotKeys, if_pos (by simpa using hlen)]
    refine forall_congr' fun e => forall_congr' fun he => ?_
    have hkey : e.key ∈ es.map Entry.key := List.mem_map_of_mem he
    have hsrc : e.key ∈ s.keys := List.mem_map_of_mem (hsub.subset he)
    rw [mem_keys_migrateKeyBatch]
    simp [hkey, hsrc]

/-- A key it is not told of stays. -/
theorem mem_keys_of_notMem {es : List Entry} (hsub : es.Sublist s.source) (hk : k ∈ s.keys)
    (hnot : k ∉ es.map Entry.key) :
    k ∈ ((migrateSlotKeys t (es.map Entry.key)).run (slotHandler f) s).2.keys := by
  rcases Nat.lt_or_ge smallKeyBatch es.length with hlen | hlen
  · refine (mem_keys_migrateSlotKeys hsub hlen).mpr ⟨hk, ?_, ?_⟩
    · rintro x hx ⟨rfl, -⟩
      obtain ⟨e, he, -, -, rfl⟩ := mem_big.mp hx
      exact hnot (List.mem_map_of_mem he)
    · rintro c hc ⟨hkc, -⟩
      obtain ⟨e, he, -, -, rfl⟩ := mem_normal.mp (mem_normal_of_mem_chunks hc hkc)
      exact hnot (List.mem_map_of_mem he)
  · rw [migrateSlotKeys, if_pos (by simpa using hlen), mem_keys_migrateKeyBatch]
    exact ⟨hk, fun h => hnot h.1⟩

/-- No key comes to the source. -/
theorem mem_keys_of_mem_migrateSlotKeys {es : List Entry} (hsub : es.Sublist s.source)
    (hk : k ∈ ((migrateSlotKeys t (es.map Entry.key)).run (slotHandler f) s).2.keys) :
    k ∈ s.keys := by
  rcases Nat.lt_or_ge smallKeyBatch es.length with hlen | hlen
  · exact ((mem_keys_migrateSlotKeys hsub hlen).mp hk).1
  · rw [migrateSlotKeys, if_pos (by simpa using hlen), mem_keys_migrateKeyBatch] at hk
    exact hk.1

end Keys

/-! ### The hand-over -/

/-- The commands about keys, which neither open a migration nor end one. -/
def SlotCmd.onKeys : SlotCmd → Bool
  | .memoryUsage _ | .migrateKeys _ _ _ _ | .migrateCopy _ _ _ _ | .del _ | .existsKey _ => true
  | .setImporting _ _ | .setMigrating _ _ | .getKeysInSlot _ _ | .setNode _ _ _ => false

section Sends

variable (t : SlotTask)

/-- A command about keys that deletes none. -/
def SlotCmd.Spares (c : SlotCmd) : Prop := c.onKeys ∧ ∀ key, c ≠ .del key

theorem sendCmd_spares (c : SlotCmd) (hc : c.onKeys) (hdel : ∀ key, c ≠ .del key) :
    (sendCmd c).Sends SlotCmd.Spares :=
  Program.Sends.send ⟨hc, hdel⟩

theorem migrateKeyBatch_spares (keys : List String) (timeoutMs : ℕ) :
    (migrateKeyBatch t keys timeoutMs).Sends SlotCmd.Spares :=
  (sendCmd_spares (batchCmd t keys timeoutMs) rfl nofun).bind fun _ => Program.Sends.pure _

theorem classifyKeys_spares (keys : List String) : (classifyKeys keys).Sends SlotCmd.Spares := by
  induction keys with
  | nil => exact Program.Sends.pure _
  | cons key keys ih =>
    refine (sendCmd_spares (.memoryUsage key) rfl nofun).bind fun size => ih.bind fun r => ?_
    cases size with
    | error err => exact Program.Sends.pure _
    | ok size => dsimp only; split <;> exact Program.Sends.pure _

theorem migrateBigKey_sends (key : String) (size : ℕ) :
    (migrateBigKey t key size).Sends fun c => c.onKeys := by
  refine ((sendCmd_spares (copyCmd t key size) rfl nofun).mono fun _ hc => hc.1).bind fun r => ?_
  cases r with
  | error err => exact Program.Sends.pure _
  | ok _ =>
    have hdel : (sendCmd (.del key)).Sends fun c => c.onKeys := Program.Sends.send rfl
    exact hdel.bind fun _ => Program.Sends.pure _

theorem filterExistingKeys_spares (keys : List String) :
    (filterExistingKeys keys).Sends SlotCmd.Spares := by
  induction keys with
  | nil => exact Program.Sends.pure _
  | cons key keys ih =>
    refine (sendCmd_spares (.existsKey key) rfl nofun).bind fun r => ih.bind fun result => ?_
    cases r with
    | error err => exact Program.Sends.pure _
    | ok n => dsimp only; split <;> exact Program.Sends.pure _

theorem migrateChunk_spares (chunk : List String) :
    (migrateChunk t chunk).Sends SlotCmd.Spares := by
  refine (filterExistingKeys_spares chunk).bind fun active => ?_
  split
  · exact migrateKeyBatch_spares t active 5000
  · exact Program.Sends.pure _

/-- The keys are moved by commands about keys. -/
theorem migrateSlotKeys_sends (keys : List String) :
    (migrateSlotKeys t keys).Sends fun c => c.onKeys := by
  rw [migrateSlotKeys]
  split
  · exact (migrateKeyBatch_spares t keys 5000).mono fun _ hc => hc.1
  · refine ((classifyKeys_spares keys).mono fun _ hc => hc.1).bind fun r => ?_
    refine Program.Sends.bind (Program.Sends.forM fun x _ => ?_) fun _ =>
      Program.Sends.forM fun c _ => (migrateChunk_spares t c).mono fun _ hc => hc.1
    exact (migrateBigKey_sends t x.1 x.2).bind fun _ => Program.Sends.pure _

end Sends

/-- The slot is handed over only when it is drained: whenever the migration sends
`SETSLOT NODE` to the destination, the source holds no key of the slot. -/
def HandsOverDrained (f : Faults) (t : SlotTask) (s : SlotState) : Prop :=
  ∀ x ∈ (migrateSlotShared t).trace (slotHandler f) s,
    x.1 = .setNode .dest t.slot t.toID → x.2.source = []

section HandOver

variable {f : Faults} {t : SlotTask} {s : SlotState}

/-- The migration ends with the hand-over, in the state it has come to. -/
theorem finalizeSlotMigration_trace :
    (∀ x ∈ (finalizeSlotMigration t).trace (slotHandler f) s,
      x.1 = .setNode .dest t.slot t.toID → x.2.source = []) ↔ s.source = [] := by
  rw [finalizeSlotMigration, Program.trace_bind, Program.trace_send]
  constructor
  · intro h
    exact h (.setNode .dest t.slot t.toID, s) (by simp) rfl
  · intro h x hx hdest
    rcases List.mem_append.mp hx with hx | hx
    · obtain rfl : x = (.setNode .dest t.slot t.toID, s) := by simpa using hx
      exact h
    · split at hx
      · simp at hx
      · rw [Program.trace_bind, Program.trace_send] at hx
        rcases List.mem_append.mp hx with hx | hx
        · obtain ⟨rfl, -⟩ : x = (.setNode .source t.slot t.toID, _) ∧ True := by simpa using hx
          simp at hdest
        · split at hx <;> simp at hx

/-- The slot as the opened migration finds it. -/
def SlotState.opened (s : SlotState) (t : SlotTask) : SlotState :=
  { s with importing := some t.fromID, migrating := some t.toID }

theorem setupSlotMigration_run_of_ok (h1 : f.error (.setImporting t.slot t.fromID) = none)
    (h2 : f.error (.setMigrating t.slot t.toID) = none) :
    (setupSlotMigration t).run (slotHandler f) s = (.ok (), s.opened t) := by
  simp [setupSlotMigration, slotHandler, SlotState.effect, Faults.reply, Faults.acts, h1, h2,
    SlotState.opened]

theorem setupSlotMigration_run_of_error (h : f.error (.setImporting t.slot t.fromID) ≠ none ∨
    f.error (.setMigrating t.slot t.toID) ≠ none) :
    ∃ err, ((setupSlotMigration t).run (slotHandler f) s).1 = .error err := by
  rw [setupSlotMigration]
  cases h1 : f.error (.setImporting t.slot t.fromID) with
  | some err => simp [slotHandler, Faults.reply, h1]
  | none =>
    cases h2 : f.error (.setMigrating t.slot t.toID) with
    | some err => simp [slotHandler, Faults.reply, h1, h2]
    | none => simp [h1, h2] at h

/-- Opening the migration hands nothing over. -/
theorem setupSlotMigration_sends :
    (setupSlotMigration t).Sends fun c => ∀ side slot id, c ≠ .setNode side slot id := by
  have h1 : (sendCmd (.setImporting t.slot t.fromID)).Sends
      fun c => ∀ side slot id, c ≠ .setNode side slot id := Program.Sends.send (by simp)
  have h2 : (sendCmd (.setMigrating t.slot t.toID)).Sends
      fun c => ∀ side slot id, c ≠ .setNode side slot id := Program.Sends.send (by simp)
  refine h1.bind fun r => ?_
  cases r with
  | error err => exact Program.Sends.pure _
  | ok _ =>
    refine h2.bind fun r => ?_
    cases r <;> exact Program.Sends.pure _

/-- The keys `migrateSlotShared` is told of. -/
def Faults.listed (f : Faults) (t : SlotTask) (s : SlotState) : List Entry :=
  if f.error (.getKeysInSlot t.slot 1000) = none then s.source.take 1000 else []

/-- The state at the hand-over of an opened migration. -/
def handOverState (f : Faults) (t : SlotTask) (s : SlotState) : SlotState :=
  if f.listed t s ≠ [] then
    ((migrateSlotKeys t ((f.listed t s).map Entry.key)).run (slotHandler f) (s.opened t)).2
  else s.opened t

/-- Once the migration is open, the slot is handed over in any case. -/
theorem handsOverDrained_iff_of_ok (h1 : f.error (.setImporting t.slot t.fromID) = none)
    (h2 : f.error (.setMigrating t.slot t.toID) = none) :
    HandsOverDrained f t s ↔ (handOverState f t s).source = [] := by
  have hget : slotHandler f (s.opened t) (.getKeysInSlot t.slot 1000) =
      (f.reply (.getKeysInSlot t.slot 1000) ((s.opened t).keys.take 1000), s.opened t) := rfl
  have hlisted : (f.reply (.getKeysInSlot t.slot 1000)
      ((s.opened t).keys.take 1000)).toOption.getD [] = (f.listed t s).map Entry.key := by
    cases herr : f.error (.getKeysInSlot t.slot 1000) with
    | some err => simp [Faults.reply, Faults.listed, herr, Except.toOption]
    | none =>
      simp [Faults.reply, Faults.listed, herr, Except.toOption, SlotState.keys,
        SlotState.opened, List.map_take]
  rw [← finalizeSlotMigration_trace (f := f) (t := t), HandsOverDrained, migrateSlotShared,
    Program.trace_bind, setupSlotMigration_run_of_ok h1 h2]
  simp only [Program.trace_bind, Program.trace_send, Program.run_send, List.forall_mem_append,
    hget, hlisted]
  -- what comes before the hand-over does not send it
  rw [and_iff_right fun x hx hdest =>
      absurd hdest (setupSlotMigration_sends.trace x hx .dest t.slot t.toID),
    and_iff_right (by simp), handOverState]
  by_cases hnil : f.listed t s = []
  · simp only [hnil, List.map_nil, ne_eq, not_true_eq_false, if_false]
  · have hne : (f.listed t s).map Entry.key ≠ [] := by simpa using hnil
    rw [if_pos hne, if_pos hnil, Program.trace_bind, List.forall_mem_append]
    refine and_iff_right fun x hx hdest => ?_
    have := (migrateSlotKeys_sends t ((f.listed t s).map Entry.key)).trace x hx
    simp [hdest, SlotCmd.onKeys] at this

/-- Of more than `n` keys one is not among the first `n`. -/
theorem exists_key_notMem_take {n : ℕ} (h : n < s.source.length) :
    ∃ k ∈ s.keys, k ∉ (s.source.take n).map Entry.key := by
  have hnd := s.nodup
  rw [← List.take_append_drop n s.source, List.map_append] at hnd
  have hne : s.source.drop n ≠ [] := by simpa using h
  have hmem := List.mem_map_of_mem (f := Entry.key) (List.head_mem hne)
  refine ⟨_, List.mem_map_of_mem (List.mem_of_mem_drop (List.head_mem hne)), fun htake => ?_⟩
  exact (List.nodup_append.mp hnd).2.2 _ htake _ hmem rfl

/-- **When the slot is handed over drained.** Either the migration is not opened, or
the source held no key, or it holds at most the 1000 keys it is asked for, says which
they are, and the commands for them take every one off it. -/
theorem migrateSlotShared_handsOverDrained_iff (f : Faults) (t : SlotTask) (s : SlotState) :
    HandsOverDrained f t s ↔
      f.error (.setImporting t.slot t.fromID) ≠ none ∨
      f.error (.setMigrating t.slot t.toID) ≠ none ∨ s.source = [] ∨
      f.error (.getKeysInSlot t.slot 1000) = none ∧ s.source.length ≤ 1000 ∧
        f.Drains t s.source := by
  by_cases hopen : f.error (.setImporting t.slot t.fromID) ≠ none ∨
      f.error (.setMigrating t.slot t.toID) ≠ none
  · refine ⟨fun _ => or_assoc.mp (Or.inl hopen), fun _ x hx hdest => ?_⟩
    obtain ⟨err, herr⟩ := setupSlotMigration_run_of_error (s := s) hopen
    rw [migrateSlotShared, Program.trace_bind, herr, Program.trace_pure, List.append_nil] at hx
    exact absurd hdest (setupSlotMigration_sends.trace x hx .dest t.slot t.toID)
  · rw [not_or, not_not, not_not] at hopen
    rw [handsOverDrained_iff_of_ok hopen.1 hopen.2]
    simp only [hopen.1, hopen.2, ne_eq, not_true_eq_false, false_or]
    by_cases hnil : s.source = []
    · have : f.listed t s = [] := by simp [Faults.listed, hnil]
      simp [handOverState, this, hnil, SlotState.opened]
    rw [or_iff_right hnil, handOverState]
    by_cases hget : f.error (.getKeysInSlot t.slot 1000) = none
    · have hlisted : f.listed t s = s.source.take 1000 := by simp [Faults.listed, hget]
      have hsub : (f.listed t s).Sublist (s.opened t).source := by
        rw [hlisted]
        exact List.take_sublist _ _
      rw [if_pos (by simpa [hlisted] using hnil), ← SlotState.keys_eq_nil, and_iff_right hget]
      constructor
      · intro hempty
        have hlen : s.source.length ≤ 1000 := by
          by_contra hlong
          obtain ⟨k, hk, hnot⟩ := exists_key_notMem_take (Nat.not_le.mp hlong)
          have := mem_keys_of_notMem (f := f) (t := t) hsub hk (by rwa [hlisted])
          simp [hempty] at this
        refine ⟨hlen, ?_⟩
        have := (forall_notMem_iff (f := f) (t := t) hsub).mp fun e _ => by
          rw [hempty]
          exact List.not_mem_nil
        rwa [hlisted, List.take_of_length_le hlen] at this
      · rintro ⟨hlen, hdrains⟩
        rw [List.take_of_length_le hlen] at hlisted
        rw [hlisted] at hsub ⊢
        refine List.eq_nil_iff_forall_not_mem.mpr fun k hk => ?_
        obtain ⟨e, he, rfl⟩ := List.mem_map.mp (mem_keys_of_mem_migrateSlotKeys hsub hk)
        exact (forall_notMem_iff hsub).mpr hdrains e he hk
    · have hlisted : f.listed t s = [] := by simp [Faults.listed, hget]
      simp [hlisted, hget, hnil, SlotState.opened]

/-- A node whose `MIGRATE` fails, and a slot of one key: the key stays and the slot is
handed over. -/
theorem not_handsOverDrained_of_migrate_error :
    ¬ HandsOverDrained
      { error := fun c => match c with
          | .migrateKeys _ _ _ _ => some "IOERR error or timeout writing to target instance"
          | _ => none }
      { slot := 7, fromID := "a", fromIP := "10.0.0.1", toID := "b", toIP := "10.0.0.2"
        destHostPort := 7002, fromHostPort := 7001, containerPort := 6379 }
      { source := [⟨"k", "v", 64⟩], owner := fun _ => "a" } := by
  rw [handsOverDrained_iff_of_ok rfl rfl]
  decide

end HandOver

end ClusterManager
