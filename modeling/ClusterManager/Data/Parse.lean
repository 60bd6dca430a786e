import ClusterManager.Data.Types
import ClusterManager.Lib.Text

/-!
# Reading `CLUSTER NODES`

The reply to `CLUSTER NODES` is a text with one line per node. `parseClusterNodeLines`
reads the lines that have all their fields into `ClusterNode`s, leaving out the nodes
the filter does not want, those whose address or slots cannot be read, and those that
are flagged as failing, whose names it returns instead.
-/

namespace ClusterManager

/-- Split `IP:port` in its two parts, which are empty if it is something else. -/
def parseIPPort (ipPort : String) : String × String :=
  match Text.split ':' ipPort with
  | [ip, port] => (ip, port)
  | _ => ("", "")

/-- A number that fits in 16 bits. -/
def stringToUint16 (str : String) : Option UInt16 :=
  match Text.atoi str with
  | none => none
  | some num => if num < 0 ∨ 65535 < num then none else some (UInt16.ofNat num.toNat)

/-- The two ends of a range `a-b`. -/
def parseRange (slotStr : String) : Option SlotRange :=
  match Text.split '-' slotStr with
  | [a, b] => (Text.atoi a).bind fun start => (Text.atoi b).map fun stop => ⟨start, stop⟩
  | _ => none

/-- The slot fields of a line. -/
def parseSlots (slotStrs : List String) : Option (List SlotRange) :=
  slotStrs.mapM fun slotStr =>
    if Text.contains slotStr "-" then parseRange slotStr
    else (Text.atoi slotStr).map fun slot => ⟨slot, slot⟩

/-- The role that the flags of a node tell. -/
def parseNodeType (field : String) : NodeType :=
  if Text.contains field "master" then .master else .slave

/-- What a line says: nothing, the name of a failing node, or a node. -/
inductive ParsedLine where
  | skip
  | failed (id : String)
  | node (n : ClusterNode)
  deriving DecidableEq, Repr

def parseClusterNodeLine (clusterFilter : String → Bool) (line : String) : ParsedLine :=
  let fields := Text.split ' ' line
  let field (i : ℕ) := fields.getD i ""
  if line = "" ∨ fields.length < 8 then .skip
  else if Text.contains (field 2) "fail" then .failed (field 0)
  else
    let (ip, port) := parseIPPort ((Text.split '@' (field 1)).headD "")
    if ip = "" then .skip
    else if !clusterFilter ip then .skip
    else
      match stringToUint16 port with
      | none => .skip
      | some port =>
        let node : ClusterNode :=
          { id := field 0, ip := ip, port := port, nodeType := parseNodeType (field 2)
            masterID := field 3, linkState := field 7 }
        if node.nodeType = .master ∧ 8 < fields.length then
          match parseSlots (fields.drop 8) with
          | none => .skip
          | some slots => .node { node with slots := slots }
        else .node node

/-- The nodes of the lines, and the names of the failing ones. -/
def parseClusterNodeLines (lines : List String) (clusterFilter : String → Bool) :
    List ClusterNode × List String :=
  let parsed := lines.map (parseClusterNodeLine clusterFilter)
  (parsed.filterMap fun
    | .node n => some n
    | .skip | .failed _ => none,
   parsed.filterMap fun
    | .failed id => some id
    | .skip | .node _ => none)

/-- The filter keeps a node or leaves out its line. -/
theorem parseClusterNodeLine_filter (clusterFilter : String → Bool) (line : String) :
    parseClusterNodeLine clusterFilter line =
      match parseClusterNodeLine (fun _ => true) line with
      | .node n => if clusterFilter n.ip then .node n else .skip
      | .skip => .skip
      | .failed id => .failed id := by
  unfold parseClusterNodeLine
  generalize Text.split ' ' line = fields
  dsimp only
  rcases parseIPPort ((Text.split '@' (fields.getD 1 "")).headD "") with ⟨ip, port⟩
  dsimp only
  split
  · rfl
  split
  · rfl
  split
  · rfl
  rw [if_neg (show ¬ (!true) = true by decide)]
  cases stringToUint16 port with
  | none => simp
  | some port =>
    dsimp only
    by_cases hmaster : parseNodeType (fields.getD 2 "") = .master ∧ 8 < fields.length
    · rw [if_pos hmaster]
      cases parseSlots (fields.drop 8) with
      | none => simp
      | some slots =>
        dsimp only
        cases clusterFilter ip <;> rfl
    · rw [if_neg hmaster]
      dsimp only
      cases clusterFilter ip <;> rfl

/-- **The nodes of the lines** are those of all lines, filtered by their addresses. -/
theorem parseClusterNodeLines_filter (lines : List String) (clusterFilter : String → Bool) :
    (parseClusterNodeLines lines clusterFilter).1 =
      (parseClusterNodeLines lines fun _ => true).1.filter fun n => clusterFilter n.ip := by
  induction lines with
  | nil => rfl
  | cons line lines ih =>
    simp only [parseClusterNodeLines, List.map_cons, List.filterMap_cons] at ih ⊢
    rw [ih, parseClusterNodeLine_filter clusterFilter line]
    cases parseClusterNodeLine (fun _ => true) line with
    | skip => rfl
    | failed id => rfl
    | node n =>
      simp only [List.filter_cons]
      cases clusterFilter n.ip <;> rfl

example : parseClusterNodeLine (fun _ => true)
    "e7 10.88.0.2:6379@16379 myself,master - 0 0 1 connected 0-5460 16383" =
    .node { id := "e7", ip := "10.88.0.2", port := 6379, nodeType := .master, masterID := "-"
            linkState := "connected", slots := [⟨0, 5460⟩, ⟨16383, 16383⟩] } := by decide

end ClusterManager
