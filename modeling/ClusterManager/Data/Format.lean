import ClusterManager.Data.Parse

/-!
# The format of `CLUSTER NODES`

A line of the reply has eight fields and, for a master, one more for each range of slots it
owns: the name of the node, its address, its flags, the name of its master, three numbers,
the state of the link to it, and the slots. `parseClusterNodeLine_eq` says field by field
what the parser makes of a line; what is proved here and later of the parser is read off it.

While a slot is moved, the line of either master also has a marker for it among the slots,
`[slot->-node]` or `[slot-<-node]`. The parser takes a marker for a range that it cannot
read, and then leaves out the whole line (`parseSlots_eq_none`). So a marker hides the
master that has it, unless the parser leaves out the line anyway (`markers_unseen_iff`).
-/

namespace ClusterManager

/-! ### The fields of a line -/

/-- The fields of a line. -/
def lineFields (line : String) : List String := Text.split ' ' line

/-- The field at a place, empty if there is none. -/
def lineField (line : String) (i : ℕ) : String := (lineFields line).getD i ""

/-- The line tells of a node: it has at least the eight fields of one. -/
def IsNodeLine (line : String) : Prop := 8 ≤ (lineFields line).length

instance (line : String) : Decidable (IsNodeLine line) := inferInstanceAs (Decidable (_ ≤ _))

/-- The flags of a node. -/
def lineFlags (line : String) : List String := Text.split ',' (lineField line 2)

/-- The address in a field, if it can be read and is wanted. -/
def readAddress (clusterFilter : String → Bool) (field : String) : Option (String × UInt16) :=
  let (ip, port) := parseIPPort ((Text.split '@' field).headD "")
  if ip = "" ∨ clusterFilter ip = false then none else (stringToUint16 port).map fun p => (ip, p)

/-- The slots of a node of that role. -/
def readSlots (nodeType : NodeType) (slotStrs : List String) : Option (List SlotRange) :=
  if nodeType = .master then parseSlots slotStrs else some []

/-- The node that the fields of a line stand for. -/
def readNode (clusterFilter : String → Bool) (line : String) : Option ClusterNode :=
  (readAddress clusterFilter (lineField line 1)).bind fun address =>
    (readSlots (parseNodeType (lineField line 2)) ((lineFields line).drop 8)).map fun slots =>
      { id := lineField line 0, ip := address.1, port := address.2
        nodeType := parseNodeType (lineField line 2), masterID := lineField line 3
        linkState := lineField line 7, slots := slots }

/-- **What the parser makes of a line.** -/
theorem parseClusterNodeLine_eq (clusterFilter : String → Bool) (line : String) :
    parseClusterNodeLine clusterFilter line =
      if ¬ IsNodeLine line then .skip
      else if Text.contains (lineField line 2) "fail" then .failed (lineField line 0)
      else match readNode clusterFilter line with
        | none => .skip
        | some n => .node n := by
  have hempty : line = "" → ¬ IsNodeLine line := by
    rintro rfl
    decide
  have hskip : line = "" ∨ (Text.split ' ' line).length < 8 ↔ ¬ IsNodeLine line :=
    ⟨fun h => h.elim hempty Nat.not_le.mpr, fun h => Or.inr (Nat.not_le.mp h)⟩
  unfold parseClusterNodeLine readNode lineField
  simp only [hskip]
  unfold lineFields readAddress readSlots
  generalize Text.split ' ' line = fields
  dsimp only
  rcases parseIPPort ((Text.split '@' (fields.getD 1 "")).headD "") with ⟨ip, port⟩
  dsimp only
  refine if_congr Iff.rfl rfl (if_congr Iff.rfl rfl ?_)
  by_cases hip : ip = ""
  · rw [if_pos hip, if_pos (Or.inl hip)]
    rfl
  rw [if_neg hip]
  cases hfilter : clusterFilter ip with
  | false => simp
  | true =>
    rw [if_neg (by simp), if_neg (by simp [hip])]
    cases stringToUint16 port with
    | none => rfl
    | some port =>
      dsimp only [Option.map_some]
      cases parseNodeType (fields.getD 2 "") with
      | slave => rfl
      | master =>
        -- a master without slot fields has no slots
        by_cases hlen : 8 < fields.length
        · simp only [hlen, and_self, if_true]
          cases parseSlots (fields.drop 8) <;> rfl
        · have hdrop : fields.drop 8 = [] := List.drop_eq_nil_of_le (Nat.not_lt.mp hlen)
          simp only [hlen, and_false, if_false, hdrop]
          rfl

/-! ### Lists of lines -/

/-- The node that a line shows. -/
def ParsedLine.node? : ParsedLine → Option ClusterNode
  | .node n => some n
  | .skip | .failed _ => none

/-- The name that a line tells to be failing. -/
def ParsedLine.failed? : ParsedLine → Option String
  | .failed id => some id
  | .skip | .node _ => none

section Lines

variable (clusterFilter : String → Bool)

theorem parseClusterNodeLines_fst (lines : List String) :
    (parseClusterNodeLines lines clusterFilter).1 =
      lines.filterMap fun line => (parseClusterNodeLine clusterFilter line).node? := by
  rw [parseClusterNodeLines]
  dsimp only
  rw [List.filterMap_map]
  refine List.filterMap_congr fun line _ => ?_
  rw [Function.comp_apply]
  cases parseClusterNodeLine clusterFilter line <;> rfl

theorem parseClusterNodeLines_snd (lines : List String) :
    (parseClusterNodeLines lines clusterFilter).2 =
      lines.filterMap fun line => (parseClusterNodeLine clusterFilter line).failed? := by
  rw [parseClusterNodeLines]
  dsimp only
  rw [List.filterMap_map]
  refine List.filterMap_congr fun line _ => ?_
  rw [Function.comp_apply]
  cases parseClusterNodeLine clusterFilter line <;> rfl

/-- The node of a line. -/
theorem node?_parseClusterNodeLine (line : String) :
    (parseClusterNodeLine clusterFilter line).node? =
      if IsNodeLine line ∧ ¬ Text.contains (lineField line 2) "fail" then
        readNode clusterFilter line
      else none := by
  rw [parseClusterNodeLine_eq]
  by_cases hline : IsNodeLine line
  · by_cases hfail : Text.contains (lineField line 2) "fail"
    · simp [hline, hfail, ParsedLine.node?]
    · cases readNode clusterFilter line <;> simp [hline, hfail, ParsedLine.node?]
  · simp [hline, ParsedLine.node?]

theorem failed?_parseClusterNodeLine (line : String) :
    (parseClusterNodeLine clusterFilter line).failed? =
      if IsNodeLine line ∧ Text.contains (lineField line 2) "fail" then some (lineField line 0)
      else none := by
  rw [parseClusterNodeLine_eq]
  by_cases hline : IsNodeLine line
  · by_cases hfail : Text.contains (lineField line 2) "fail"
    · simp [hline, hfail, ParsedLine.failed?]
    · cases readNode clusterFilter line <;> simp [hline, hfail, ParsedLine.failed?]
  · simp [hline, ParsedLine.failed?]

end Lines

/-! ### Slots -/

/-- The range that a slot field stands for. -/
def readSlot (slotStr : String) : Option SlotRange :=
  if Text.contains slotStr "-" then parseRange slotStr
  else (Text.atoi slotStr).map fun slot => ⟨slot, slot⟩

theorem parseSlots_eq (slotStrs : List String) : parseSlots slotStrs = slotStrs.mapM readSlot := rfl

/-- **One field that cannot be read spoils all of them.** -/
theorem parseSlots_eq_none {slotStrs : List String} :
    parseSlots slotStrs = none ↔ ∃ slotStr ∈ slotStrs, readSlot slotStr = none := by
  induction slotStrs with
  | nil => simp [parseSlots_eq]
  | cons slotStr slotStrs ih =>
    rw [parseSlots_eq, List.mapM_cons, ← parseSlots_eq]
    cases hslot : readSlot slotStr with
    | none => simp [hslot]
    | some range =>
      cases hrest : parseSlots slotStrs with
      | none => simpa [hslot] using ih.mp hrest
      | some ranges =>
        rw [hrest] at ih
        simpa [hslot] using ih

/-! ### Markers of slots that are moved -/

/-- The marker of a slot that is moved to another node, or comes from there. -/
structure SlotMarker where
  slot : ℕ
  nodeID : String
  importing : Bool
  /-- The name is one word. -/
  nodeID_word : ' ' ∉ nodeID.toList

namespace SlotMarker

/-- What is written between the slot and the name. -/
def arrow (m : SlotMarker) : Char := if m.importing then '<' else '>'

def text (m : SlotMarker) : String :=
  "[" ++ toString m.slot ++ "-" ++ String.singleton m.arrow ++ "-" ++ m.nodeID ++ "]"

variable (m : SlotMarker)

theorem toList_text : m.text.toList =
    ('[' :: (toString m.slot).toList) ++
      '-' :: ([m.arrow] ++ '-' :: (m.nodeID.toList ++ [']'])) := by
  simp [text]

theorem arrow_ne {c : Char} (h : c ≠ '<' ∧ c ≠ '>') : c ≠ m.arrow := by
  rw [arrow]
  split
  · exact h.1
  · exact h.2

/-- A marker is one field. -/
theorem text_word : ' ' ∉ m.text.toList := by
  have harrow := m.arrow_ne (c := ' ') (by decide)
  have hslot := Text.notMem_toString (c := ' ') (by decide) m.slot
  rw [toList_text]
  simp only [List.mem_append, List.mem_cons, List.not_mem_nil, or_false, not_or]
  exact ⟨⟨by decide, hslot⟩, by decide, harrow, by decide, m.nodeID_word, by decide⟩

/-- **A marker is not a range**: it has too many parts. -/
theorem readSlot_text : readSlot m.text = none := by
  have hdash : Text.contains m.text "-" := by
    rw [Text.contains, decide_eq_true_iff, toList_text]
    exact ⟨_, _, List.append_assoc _ _ _⟩
  have hfirst : '-' ∉ '[' :: (toString m.slot).toList := by
    simpa using Text.notMem_toString (c := '-') (by decide) m.slot
  have harrow : '-' ∉ [m.arrow] := by simpa using m.arrow_ne (c := '-') (by decide)
  have hsplit : ∃ a b c rest, Text.split '-' m.text = a :: b :: c :: rest := by
    rw [Text.split, toList_text, List.splitOn_append_cons_self_of_not_mem hfirst,
      List.splitOn_append_cons_self_of_not_mem harrow]
    obtain ⟨c, rest, hrest⟩ := List.exists_cons_of_ne_nil
      (List.splitOn_ne_nil '-' (m.nodeID.toList ++ [']']))
    rw [hrest]
    exact ⟨_, _, _, _, rfl⟩
  obtain ⟨a, b, c, rest, hsplit⟩ := hsplit
  rw [readSlot, if_pos hdash, parseRange, hsplit]

end SlotMarker

/-- Slot fields with markers among them. -/
inductive Marked : List String → List SlotMarker → List String → Prop
  | nil : Marked [] [] []
  | field {slots : List String} {markers : List SlotMarker} {fields : List String} (slot : String) :
    Marked slots markers fields → Marked (slot :: slots) markers (slot :: fields)
  | marker {slots : List String} {markers : List SlotMarker} {fields : List String}
    (m : SlotMarker) : Marked slots markers fields → Marked slots (m :: markers) (m.text :: fields)

namespace Marked

variable {slots fields : List String} {markers : List SlotMarker}

theorem mem_iff (h : Marked slots markers fields) {f : String} :
    f ∈ fields ↔ f ∈ slots ∨ ∃ m ∈ markers, f = m.text := by
  induction h with
  | nil => simp
  | field slot _ ih => rw [List.mem_cons, List.mem_cons, ih, or_assoc]
  | marker m _ ih =>
    rw [List.mem_cons, ih]
    simp only [List.mem_cons, exists_eq_or_imp]
    exact or_left_comm

theorem eq_of_nil (h : Marked slots [] fields) : fields = slots := by
  generalize hnil : ([] : List SlotMarker) = markers at h
  induction h with
  | nil => rfl
  | field slot _ ih => rw [ih hnil]
  | marker m _ _ => cases hnil

/-- The slots cannot be read with a marker among them, nor if they could not without. -/
theorem parseSlots_eq_none (h : Marked slots markers fields) :
    parseSlots fields = none ↔ parseSlots slots = none ∨ markers ≠ [] := by
  rw [ClusterManager.parseSlots_eq_none, ClusterManager.parseSlots_eq_none]
  constructor
  · rintro ⟨f, hf, hnone⟩
    rcases h.mem_iff.mp hf with hf | ⟨m, hm, -⟩
    · exact Or.inl ⟨f, hf, hnone⟩
    · exact Or.inr (List.ne_nil_of_mem hm)
  · rintro (⟨f, hf, hnone⟩ | hne)
    · exact ⟨f, h.mem_iff.mpr (Or.inl hf), hnone⟩
    · obtain ⟨m, hm⟩ := List.exists_mem_of_ne_nil _ hne
      exact ⟨m.text, h.mem_iff.mpr (Or.inr ⟨m, hm, rfl⟩), m.readSlot_text⟩

end Marked

/-- The line of a master. -/
def IsMasterLine (line : String) : Prop := IsNodeLine line ∧ "master" ∈ lineFlags line

instance (line : String) : Decidable (IsMasterLine line) := inferInstanceAs (Decidable (_ ∧ _))

/-- The line with other slot fields. -/
def withSlots (line : String) (fields : List String) : String :=
  Text.join ' ' ((lineFields line).take 8 ++ fields)

/-- The line of a master is read: it is not flagged as failing, its address can be read and
is wanted, and its slots can be read. -/
def ReadsMaster (clusterFilter : String → Bool) (line : String) : Prop :=
  ¬ Text.contains (lineField line 2) "fail" ∧
    (readAddress clusterFilter (lineField line 1)).isSome ∧
    (parseSlots ((lineFields line).drop 8)).isSome

section Hidden

variable {clusterFilter : String → Bool} {line : String} {markers : List SlotMarker}
  {fields : List String}

theorem withSlots_drop (line : String) : withSlots line ((lineFields line).drop 8) = line := by
  rw [withSlots, List.take_append_drop]
  exact Text.join_split ' ' line

theorem parseNodeType_of_mem (h : "master" ∈ lineFlags line) :
    parseNodeType (lineField line 2) = .master := by
  have hcontains : Text.contains (lineField line 2) "master" :=
    (Text.contains_iff_exists_mem_split ',' (by decide) _).mpr ⟨_, h, by decide⟩
  rw [parseNodeType, if_pos hcontains]

/-- What the parser reads of a line with other slot fields. -/
theorem lineFields_withSlots (hline : IsNodeLine line) (hfields : ∀ f ∈ fields, ' ' ∉ f.toList) :
    lineFields (withSlots line fields) = (lineFields line).take 8 ++ fields := by
  have hlen : ((lineFields line).take 8).length = 8 := List.length_take_of_le hline
  refine Text.split_join ?_ fun f hf => ?_
  · intro hnil
    rw [(List.append_eq_nil_iff.mp hnil).1] at hlen
    cases hlen
  · rcases List.mem_append.mp hf with hf | hf
    · exact Text.notMem_of_mem_split (List.mem_of_mem_take hf)
    · exact hfields f hf

theorem lineField_withSlots (hline : IsNodeLine line) (hfields : ∀ f ∈ fields, ' ' ∉ f.toList)
    {i : ℕ} (hi : i < 8) : lineField (withSlots line fields) i = lineField line i := by
  have hlen : ((lineFields line).take 8).length = 8 := List.length_take_of_le hline
  rw [lineField, lineField, lineFields_withSlots hline hfields, List.getD_eq_getElem?_getD,
    List.getD_eq_getElem?_getD, List.getElem?_append_left (by omega), List.getElem?_take_of_lt hi]

/-- The node of a master's line with other slot fields. -/
theorem node?_withSlots (clusterFilter : String → Bool) (hmaster : IsMasterLine line)
    (hfields : ∀ f ∈ fields, ' ' ∉ f.toList) :
    ((parseClusterNodeLine clusterFilter (withSlots line fields)).node?).isSome ↔
      ¬ Text.contains (lineField line 2) "fail" ∧
        (readAddress clusterFilter (lineField line 1)).isSome ∧ (parseSlots fields).isSome := by
  obtain ⟨hline, hflag⟩ := hmaster
  have hlen : ((lineFields line).take 8).length = 8 := List.length_take_of_le hline
  have hline' : IsNodeLine (withSlots line fields) := by
    rw [IsNodeLine, lineFields_withSlots hline hfields, List.length_append]
    omega
  have hdrop : (lineFields (withSlots line fields)).drop 8 = fields := by
    rw [lineFields_withSlots hline hfields, List.drop_left' hlen]
  rw [node?_parseClusterNodeLine, readNode, hdrop]
  simp only [lineField_withSlots hline hfields (show 0 < 8 by decide),
    lineField_withSlots hline hfields (show 1 < 8 by decide),
    lineField_withSlots hline hfields (show 2 < 8 by decide), parseNodeType_of_mem hflag, hline',
    true_and, readSlots, if_true]
  split
  · rename_i hfail
    cases readAddress clusterFilter (lineField line 1) with
    | none => simp
    | some address => simp [hfail]
  · rename_i hfail
    simp [hfail]

/-- The nodes of a list of lines, around one of them. -/
theorem parseClusterNodeLines_around (clusterFilter : String → Bool) (before after : List String)
    (line : String) :
    (parseClusterNodeLines (before ++ line :: after) clusterFilter).1 =
      (parseClusterNodeLines before clusterFilter).1 ++
        ((parseClusterNodeLine clusterFilter line).node?.toList ++
          (parseClusterNodeLines after clusterFilter).1) := by
  simp only [parseClusterNodeLines_fst, List.filterMap_append]
  rw [List.filterMap_cons]
  cases (parseClusterNodeLine clusterFilter line).node? <;> rfl

/-- **When markers do not hide a master**: markers among the slot fields of a master's line
leave the nodes that are read as they are exactly if there are none, or if the line is not
read without them either. -/
theorem markers_unseen_iff (clusterFilter : String → Bool) (before after : List String)
    (line : String) (hmaster : IsMasterLine line) (markers : List SlotMarker) (fields : List String)
    (hmarked : Marked ((lineFields line).drop 8) markers fields) :
    (parseClusterNodeLines (before ++ withSlots line fields :: after) clusterFilter).1 =
        (parseClusterNodeLines (before ++ line :: after) clusterFilter).1 ↔
      markers = [] ∨ ¬ ReadsMaster clusterFilter line := by
  have hslots : ∀ f ∈ (lineFields line).drop 8, ' ' ∉ f.toList := fun f hf =>
    Text.notMem_of_mem_split (List.mem_of_mem_drop hf)
  have hfields : ∀ f ∈ fields, ' ' ∉ f.toList := by
    intro f hf
    rcases hmarked.mem_iff.mp hf with hf | ⟨m, -, rfl⟩
    · exact hslots f hf
    · exact m.text_word
  have hread := node?_withSlots clusterFilter hmaster hslots
  rw [withSlots_drop] at hread
  have hread' := node?_withSlots clusterFilter hmaster hfields
  rw [parseClusterNodeLines_around, parseClusterNodeLines_around, List.append_cancel_left_eq,
    List.append_cancel_right_eq]
  by_cases hnil : markers = []
  · subst hnil
    rw [hmarked.eq_of_nil, withSlots_drop]
    simp
  -- with a marker the slots cannot be read
  have hnone : (parseClusterNodeLine clusterFilter (withSlots line fields)).node? = none := by
    rw [← Option.not_isSome_iff_eq_none, hread', hmarked.parseSlots_eq_none.mpr (Or.inr hnil)]
    simp
  rw [hnone, or_iff_right hnil, ReadsMaster, ← hread]
  cases (parseClusterNodeLine clusterFilter line).node? <;> simp

end Hidden

/-- The line of a master with one range. -/
def oneRangeLine : String := "a 10.0.0.2:6379@16379 master - 0 0 1 connected 0-9"

/-- The marker of slot 7 on its way to a node `b`. -/
def movingSeven : SlotMarker where
  slot := 7
  nodeID := "b"
  importing := false
  nodeID_word := by decide

theorem drop_lineFields_oneRangeLine : (lineFields oneRangeLine).drop 8 = ["0-9"] := by
  decide +kernel

/-- Without a marker the master is read as before. -/
theorem markers_unseen_of_none : IsMasterLine oneRangeLine ∧
    Marked ((lineFields oneRangeLine).drop 8) [] ["0-9"] ∧
    (parseClusterNodeLines ([] ++ withSlots oneRangeLine ["0-9"] :: []) fun _ => true).1 =
      (parseClusterNodeLines ([] ++ oneRangeLine :: []) fun _ => true).1 := by
  have hmaster : IsMasterLine oneRangeLine := by decide +kernel
  have hmarked : Marked ((lineFields oneRangeLine).drop 8) [] ["0-9"] := by
    rw [drop_lineFields_oneRangeLine]
    exact .field _ .nil
  exact ⟨hmaster, hmarked,
    (markers_unseen_iff (fun _ => true) [] [] oneRangeLine hmaster [] ["0-9"] hmarked).mpr
      (Or.inl rfl)⟩

/-- A master that is giving away a slot is not read. -/
theorem not_markers_unseen_of_moving : IsMasterLine oneRangeLine ∧
    Marked ((lineFields oneRangeLine).drop 8) [movingSeven] ["0-9", "[7->-b]"] ∧
    (parseClusterNodeLines ([] ++ oneRangeLine :: []) fun _ => true).1 =
      [{ id := "a", ip := "10.0.0.2", port := 6379, nodeType := .master, masterID := "-"
         linkState := "connected", slots := [⟨0, 9⟩] }] ∧
    (parseClusterNodeLines ([] ++ withSlots oneRangeLine ["0-9", "[7->-b]"] :: [])
      fun _ => true).1 = [] := by
  refine ⟨by decide +kernel, ?_, by decide +kernel, by decide +kernel⟩
  rw [drop_lineFields_oneRangeLine]
  have htext : movingSeven.text = "[7->-b]" := by decide +kernel
  rw [← htext]
  exact .field _ (.marker _ .nil)

end ClusterManager
