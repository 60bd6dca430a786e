import ClusterManager.Data.Format
import ClusterManager.Model.Nodes

/-!
# What Redis reports, and what is read of it

`NodeReport` is what Redis tells of a node of a cluster in which nothing is going on, and
`renderNodes` prints a list of them as `CLUSTER NODES` does. Reading the text gives the
nodes back (`parseClusterNodeLines_renderNodes`), with one exception: a node that does not
know its own address is printed with an empty host, and the parser leaves it out.
-/

namespace ClusterManager

/-! ### Printing -/

/-- One word of a line. -/
def IsWord (s : String) : Prop := ' ' ∉ s.toList ∧ '\n' ∉ s.toList

instance (s : String) : Decidable (IsWord s) := inferInstanceAs (Decidable (_ ∧ _))

/-- What Redis tells of a node in a cluster in which nothing is going on. -/
structure NodeReport where
  id : String
  host : String
  port : UInt16
  busPort : ℕ
  hostname : Option String := none
  myself : Bool := false
  nodeType : NodeType
  masterID : String := "-"
  pingSent : ℕ := 0
  pongReceived : ℕ := 0
  configEpoch : ℕ := 0
  linkState : String := "connected"
  ranges : List SlotRange := []
  id_word : IsWord id := by decide
  host_word : IsWord host := by decide
  /-- The host can be told from what stands after it. -/
  host_plain : ':' ∉ host.toList ∧ '@' ∉ host.toList := by decide
  hostname_word : ∀ name ∈ hostname, IsWord name := by simp
  masterID_word : IsWord masterID := by decide
  linkState_word : IsWord linkState := by decide
  /-- A range begins before it ends. -/
  ranges_le : ∀ r ∈ ranges, 0 ≤ r.start ∧ r.start ≤ r.stop ∧ r.stop < 2 ^ 63 := by decide
  /-- Only masters own slots. -/
  ranges_slave : nodeType = .slave → ranges = [] := by decide

/-- A single slot is printed as itself, and a longer range by its ends. -/
def SlotRange.render (r : SlotRange) : String :=
  if r.start = r.stop then toString r.start.toNat
  else toString r.start.toNat ++ "-" ++ toString r.stop.toNat

namespace NodeReport

variable (n : NodeReport)

def address : String :=
  n.host ++ ":" ++ toString n.port.toNat ++ "@" ++ toString n.busPort ++
    match n.hostname with
    | none => ""
    | some name => "," ++ name

def flags : String :=
  (if n.myself then "myself," else "") ++
    match n.nodeType with
    | .master => "master"
    | .slave => "slave"

def fields : List String :=
  [n.id, n.address, n.flags, n.masterID, toString n.pingSent, toString n.pongReceived,
    toString n.configEpoch, n.linkState] ++ n.ranges.map SlotRange.render

def line : String := Text.join ' ' n.fields

/-- The node of the report, as the parser returns it. -/
def node : ClusterNode :=
  { id := n.id, ip := n.host, port := n.port, nodeType := n.nodeType, masterID := n.masterID
    linkState := n.linkState, slots := n.ranges }

end NodeReport

/-- The reply to `CLUSTER NODES`: one line for each node. -/
def renderNodes : List NodeReport → String
  | [] => ""
  | n :: reports => n.line ++ "\n" ++ renderNodes reports

/-! ### The words of a line -/

theorem isWord_of_forall {s : String} (h : ∀ c ∈ s.toList, c ≠ ' ' ∧ c ≠ '\n') : IsWord s :=
  ⟨fun hc => (h _ hc).1 rfl, fun hc => (h _ hc).2 rfl⟩

theorem IsWord.append {s t : String} (hs : IsWord s) (ht : IsWord t) : IsWord (s ++ t) := by
  rw [IsWord, String.toList_append, List.mem_append, List.mem_append, not_or, not_or]
  exact ⟨⟨hs.1, ht.1⟩, hs.2, ht.2⟩

theorem isWord_toString (n : ℕ) : IsWord (toString n) := by
  refine isWord_of_forall fun c hc => ?_
  have hdigit := Text.isDigit_of_mem_toString hc
  constructor
  · rintro rfl
    exact absurd hdigit (by decide)
  · rintro rfl
    exact absurd hdigit (by decide)

theorem SlotRange.isWord_render (r : SlotRange) : IsWord r.render := by
  rw [render]
  split
  · exact isWord_toString _
  · exact ((isWord_toString _).append (by decide)).append (isWord_toString _)

namespace NodeReport

variable (n : NodeReport)

theorem isWord_address : IsWord n.address := by
  have hname : IsWord (match n.hostname with
      | none => ""
      | some name => "," ++ name) := by
    cases hname : n.hostname with
    | none => decide
    | some name => exact IsWord.append (by decide) (n.hostname_word name hname)
  exact ((((n.host_word.append (by decide)).append (isWord_toString _)).append (by decide)).append
    (isWord_toString _)).append hname

theorem isWord_flags : IsWord n.flags := by
  rw [flags]
  cases n.myself <;> cases n.nodeType <;> decide

theorem isWord_of_mem_fields {f : String} (hf : f ∈ n.fields) : IsWord f := by
  rw [fields, List.mem_append] at hf
  rcases hf with hf | hf
  · simp only [List.mem_cons, List.not_mem_nil, or_false] at hf
    rcases hf with rfl | rfl | rfl | rfl | rfl | rfl | rfl | rfl
    · exact n.id_word
    · exact n.isWord_address
    · exact n.isWord_flags
    · exact n.masterID_word
    · exact isWord_toString _
    · exact isWord_toString _
    · exact isWord_toString _
    · exact n.linkState_word
  · obtain ⟨r, -, rfl⟩ := List.mem_map.mp hf
    exact r.isWord_render

theorem lineFields_line : lineFields n.line = n.fields :=
  Text.split_join (List.cons_ne_nil _ _) fun _ hf => (n.isWord_of_mem_fields hf).1

theorem isNodeLine_line : IsNodeLine n.line := by
  rw [IsNodeLine, lineFields_line, fields, List.length_append]
  exact Nat.le_add_right _ _

theorem notMem_line : '\n' ∉ n.line.toList := by
  intro hmem
  rcases Text.mem_join hmem with h | ⟨f, hf, hmem⟩
  · exact absurd h (by decide)
  · exact (n.isWord_of_mem_fields hf).2 hmem

/-! ### Reading the fields back -/

theorem stringToUint16_toString (p : UInt16) : stringToUint16 (toString p.toNat) = some p := by
  have hlt := p.toNat_lt
  rw [stringToUint16, Text.atoi_toString (by omega)]
  dsimp only
  rw [if_neg (by omega), Int.toNat_natCast, UInt16.ofNat_toNat]

/-- **The address is read back**, if there is a host. -/
theorem readAddress_address (clusterFilter : String → Bool) (hhost : n.host ≠ "")
    (hfilter : clusterFilter n.host = true) :
    readAddress clusterFilter n.address = some (n.host, n.port) := by
  have hfirst : '@' ∉ (n.host ++ ":" ++ toString n.port.toNat).toList := by
    have hport := Text.notMem_toString (c := '@') (by decide) n.port.toNat
    rw [String.toList_append, String.toList_append, List.mem_append, List.mem_append]
    rintro ((h | h) | h)
    · exact n.host_plain.2 h
    · exact absurd h (by decide)
    · exact hport h
  have hsplit : (Text.split '@' n.address).headD "" = n.host ++ ":" ++ toString n.port.toNat := by
    have haddress : n.address = n.host ++ ":" ++ toString n.port.toNat ++ String.singleton '@' ++
        (toString n.busPort ++ match n.hostname with
          | none => ""
          | some name => "," ++ name) := String.append_assoc
    rw [haddress, Text.split_append_cons hfirst, List.headD_cons]
  have hparts : Text.split ':' (n.host ++ ":" ++ toString n.port.toNat) =
      [n.host, toString n.port.toNat] :=
    Text.split_ends n.host_plain.1 (Text.notMem_toString (by decide) _)
  rw [readAddress, hsplit, parseIPPort, hparts]
  dsimp only
  rw [if_neg (by simp [hhost, hfilter]), stringToUint16_toString, Option.map_some]

end NodeReport

/-- **A range is read back.** -/
theorem SlotRange.readSlot_render {r : SlotRange}
    (hr : 0 ≤ r.start ∧ r.start ≤ r.stop ∧ r.stop < 2 ^ 63) : readSlot r.render = some r := by
  have hstart : Text.atoi (toString r.start.toNat) = some r.start := by
    rw [Text.atoi_toString (by omega), Int.toNat_of_nonneg hr.1]
  have hstop : Text.atoi (toString r.stop.toNat) = some r.stop := by
    rw [Text.atoi_toString (by omega), Int.toNat_of_nonneg (by omega)]
  have hdash : ∀ k : ℕ, '-' ∉ (toString k).toList := Text.notMem_toString (by decide)
  rw [render]
  split
  · rename_i hsingle
    have hnone : ¬ Text.contains (toString r.start.toNat) "-" := by
      rw [Text.contains, decide_eq_true_iff]
      intro hsub
      exact hdash _ (hsub.subset List.mem_cons_self)
    rw [readSlot, if_neg hnone, hstart, Option.map_some]
    obtain ⟨start, stop⟩ := r
    obtain rfl : start = stop := hsingle
    rfl
  · have hsplit : Text.split '-' (toString r.start.toNat ++ "-" ++ toString r.stop.toNat) =
        [toString r.start.toNat, toString r.stop.toNat] :=
      Text.split_ends (hdash _) (hdash _)
    have hcontains : Text.contains
        (toString r.start.toNat ++ "-" ++ toString r.stop.toNat) "-" := by
      rw [Text.contains, decide_eq_true_iff, String.toList_append, String.toList_append]
      exact ⟨_, _, rfl⟩
    rw [readSlot, if_pos hcontains, parseRange, hsplit]
    dsimp only
    rw [hstart, Option.bind_some, hstop, Option.map_some]

theorem parseSlots_render {ranges : List SlotRange}
    (hranges : ∀ r ∈ ranges, 0 ≤ r.start ∧ r.start ≤ r.stop ∧ r.stop < 2 ^ 63) :
    parseSlots (ranges.map SlotRange.render) = some ranges := by
  induction ranges with
  | nil => rfl
  | cons r ranges ih =>
    have hrest := ih fun r' hr' => hranges r' (List.mem_cons_of_mem _ hr')
    rw [List.map_cons, parseSlots_eq, List.mapM_cons, ← parseSlots_eq,
      SlotRange.readSlot_render (hranges r List.mem_cons_self), hrest]
    rfl

/-! ### Reading the reply back -/

namespace NodeReport

variable (n : NodeReport)

theorem lineField_line {i : ℕ} (f : String) (hf : n.fields[i]? = some f) :
    lineField n.line i = f := by
  rw [lineField, lineFields_line, List.getD_eq_getElem?_getD, hf, Option.getD_some]

theorem parseNodeType_flags : parseNodeType n.flags = n.nodeType := by
  rw [flags]
  cases n.myself <;> cases n.nodeType <;> decide

theorem contains_flags_fail : Text.contains n.flags "fail" = false := by
  rw [flags]
  cases n.myself <;> cases n.nodeType <;> decide

theorem readSlots_fields : readSlots n.nodeType (n.fields.drop 8) = some n.ranges := by
  change readSlots n.nodeType (n.ranges.map SlotRange.render) = _
  rw [readSlots]
  split
  · exact parseSlots_render n.ranges_le
  · rename_i hslave
    rw [n.ranges_slave]
    cases hrole : n.nodeType with
    | master => exact absurd hrole hslave
    | slave => rfl

/-- **A line is read back.** -/
theorem parseClusterNodeLine_line (clusterFilter : String → Bool) (hhost : n.host ≠ "")
    (hfilter : clusterFilter n.host = true) :
    parseClusterNodeLine clusterFilter n.line = .node n.node := by
  have hflags : lineField n.line 2 = n.flags := n.lineField_line _ rfl
  have hnode : readNode clusterFilter n.line = some n.node := by
    rw [readNode, n.lineField_line n.address rfl, n.readAddress_address clusterFilter hhost hfilter,
      hflags, parseNodeType_flags, lineFields_line, readSlots_fields, n.lineField_line n.id rfl,
      n.lineField_line n.masterID rfl, n.lineField_line n.linkState rfl]
    rfl
  rw [parseClusterNodeLine_eq, if_neg (not_not.mpr n.isNodeLine_line), hflags, contains_flags_fail,
    if_neg Bool.false_ne_true, hnode]

end NodeReport

/-- The lines of the reply, and nothing after the last line break. -/
theorem split_renderNodes (reports : List NodeReport) :
    Text.split '\n' (renderNodes reports) = reports.map NodeReport.line ++ [""] := by
  induction reports with
  | nil => rfl
  | cons n reports ih =>
    have hsplit : Text.split '\n' (n.line ++ String.singleton '\n' ++ renderNodes reports) =
        n.line :: Text.split '\n' (renderNodes reports) := Text.split_append_cons n.notMem_line
    rw [renderNodes, List.map_cons, List.cons_append, ← ih]
    exact hsplit

/-- The nodes of a printed reply. -/
theorem fst_parseClusterNodeLines_renderNodes (reports : List NodeReport)
    (clusterFilter : String → Bool) (hhost : ∀ n ∈ reports, n.host ≠ "")
    (hfilter : ∀ n ∈ reports, clusterFilter n.host = true) :
    (parseClusterNodeLines (Text.split '\n' (renderNodes reports)) clusterFilter).1 =
      reports.map NodeReport.node := by
  have hnodes : ∀ n ∈ reports, (parseClusterNodeLine clusterFilter n.line).node? = some n.node := by
    intro n hn
    rw [n.parseClusterNodeLine_line clusterFilter (hhost n hn) (hfilter n hn)]
    rfl
  rw [parseClusterNodeLines_fst, split_renderNodes, List.filterMap_append, List.filterMap_map]
  exact (List.append_nil _).trans
    ((List.filterMap_congr hnodes).trans (congrFun List.filterMap_eq_map reports))

/-- Two masters, each with the replica of the other. -/
def swappedReports : List NodeReport :=
  [{ id := "a", host := "10.0.0.1", port := 6379, busPort := 16379, nodeType := .master },
   { id := "b", host := "10.0.0.2", port := 6379, busPort := 16379, nodeType := .master },
   { id := "c", host := "10.0.0.3", port := 6379, busPort := 16379, nodeType := .slave
     masterID := "b" },
   { id := "d", host := "10.0.0.4", port := 6379, busPort := 16379, nodeType := .slave
     masterID := "a" }]

/-- A master with all slots and its replica, and a master without slots. -/
def wholeReports : List NodeReport :=
  [{ id := "a", host := "10.0.0.2", port := 6379, busPort := 16379, myself := true
     nodeType := .master, ranges := [⟨0, 16383⟩] },
   { id := "b", host := "10.0.0.3", port := 6379, busPort := 16379, nodeType := .slave
     masterID := "a" },
   { id := "c", host := "10.0.0.4", port := 6379, busPort := 16379, nodeType := .master }]

end ClusterManager
