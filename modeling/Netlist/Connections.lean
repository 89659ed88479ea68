import Netlist.Element

/-!
# The written form of interface records

A recorded interface keeps two fields. `nodeCount` is a number, `connections`
a list of entries `link,port,key,m0 m1 ...` separated by `;`, where the port
map lists node numbers separated by blanks, `-1` for ground:

    R1,0,inlet,3 -1;P2,1,outlet,0 4

Reading trims the text and the link and key of each entry, allows blanks and
tabs around numbers, and allows one `;` at the end. Entries are read as far as
they go: a `;` after which no entry follows is not taken as a separator, and
neither are blanks after which no number follows.
-/

namespace Netlist.Connections

open Netlist.Text (trimChars byteLength)

/-! ## Fields of the two records -/

/-- The field with the node count of an interface or instance. -/
def nodeCountField : String := "nodeCount"

/-- The field with the connections of an interface. -/
def connectionsField : String := "connections"

/-! ## Writing -/

/-- One entry. -/
def renderOne (c : Connection) : String :=
  c.link ++ "," ++ toString c.port ++ "," ++ c.key ++ "," ++
    String.intercalate " " (c.portMap.map toString)

/-- The entries, separated by `;`. -/
def render (cs : List Connection) : String :=
  String.intercalate ";" (cs.map renderOne)

/-! ## Reading the parts of an entry -/

/-- Whether a character separates numbers: a blank or a tab. -/
def isGap (c : Char) : Bool := c == ' ' || c == '\t'

/-- Whether a character is an ASCII digit. -/
def isDigit (c : Char) : Bool := (Text.digitValue? c).isSome

/-- Whether a character may stand in a link or key. -/
def isItem (c : Char) : Bool := c != ',' && c != ';'

/-- Drops blanks and tabs. -/
def skipGaps (cs : List Char) : List Char := cs.dropWhile isGap

/-- Reads a run of digits of at most `limit`. -/
def digits? (limit : Nat) (cs : List Char) : Option (Nat × List Char) :=
  match Text.readMagnitude limit .tooLarge (cs.takeWhile isDigit) with
  | .ok n => some (n, cs.dropWhile isDigit)
  | .error _ => none

/-- Reads a signed integer; only `-` may stand before the digits. -/
def signed? : List Char → Option (Int × List Char)
  | '-' :: cs => (digits? (Text.integerLimit + 1) cs).map fun r => (-(Int.ofNat r.1), r.2)
  | cs => (digits? Text.integerLimit cs).map fun r => (Int.ofNat r.1, r.2)

theorem length_digits? {limit n : Nat} {cs rest : List Char}
    (h : digits? limit cs = some (n, rest)) : rest.length < cs.length := by
  unfold digits? at h
  split at h
  · rename_i hm
    cases h
    cases cs with
    | nil => simp [Text.readMagnitude] at hm
    | cons c cs =>
      by_cases hc : isDigit c
      · simp only [List.dropWhile_cons, hc, if_true, List.length_cons]
        exact Nat.lt_succ_of_le (List.dropWhile_sublist _).length_le
      · simp [hc, Text.readMagnitude] at hm
  · cases h

theorem length_signed? {n : Int} {cs rest : List Char} (h : signed? cs = some (n, rest)) :
    rest.length < cs.length := by
  unfold signed? at h
  split at h
  all_goals
    obtain ⟨⟨m, r⟩, hr, he⟩ := Option.map_eq_some_iff.1 h
    cases he
    have hlt := length_digits? hr
    first
      | exact Nat.lt_succ_of_lt hlt
      | exact hlt

/-- Reads further numbers of a port map, each after at least one blank. -/
def moreNumbers (cs : List Char) : List Int × List Char :=
  match cs with
  | [] => ([], [])
  | c :: cs' =>
    if isGap c then
      match h : signed? (skipGaps cs') with
      | some (n, rest) =>
        have : rest.length < cs'.length + 1 := by
          have h₁ := length_signed? h
          have h₂ : (skipGaps cs').length ≤ cs'.length := (List.dropWhile_sublist _).length_le
          omega
        let (ns, rest) := moreNumbers rest
        (n :: ns, rest)
      | none => ([], c :: cs')
    else ([], c :: cs')
termination_by cs.length

/-- Reads a port map with the blanks around it. -/
def portMap (cs : List Char) : List Int × List Char :=
  match signed? (skipGaps cs) with
  | none => ([], skipGaps cs)
  | some (n, rest) =>
    let (ns, rest) := moreNumbers rest
    (n :: ns, skipGaps rest)

/-- Reads a link or key: everything up to the next `,` or `;`, trimmed. -/
def item (cs : List Char) : List Char × List Char :=
  (trimChars (cs.takeWhile isItem), cs.dropWhile isItem)

/-- Reads a port number with the blanks around it. -/
def port? (cs : List Char) : Option (Nat × List Char) :=
  (digits? Text.countLimit (skipGaps cs)).map fun r => (r.1, skipGaps r.2)

/-- Reads one entry. -/
def connection? (cs : List Char) : Option (Connection × List Char) :=
  match item cs with
  | (_ :: _, ',' :: r₁) =>
    match port? r₁ with
    | some (port, ',' :: r₂) =>
      match item r₂ with
      | (key, ',' :: r₃) =>
        let (numbers, rest) := portMap r₃
        some (⟨String.ofList (item cs).1, port, String.ofList key, numbers⟩, rest)
      | _ => none
    | _ => none
  | _ => none

/-! ## Reading never goes back -/

theorem length_skipGaps (cs : List Char) : (skipGaps cs).length ≤ cs.length :=
  (List.dropWhile_sublist _).length_le

theorem length_item (cs : List Char) : (item cs).2.length ≤ cs.length :=
  (List.dropWhile_sublist _).length_le

theorem length_moreNumbers (cs : List Char) : (moreNumbers cs).2.length ≤ cs.length := by
  fun_induction moreNumbers cs with
  | case1 => simp
  | case2 c cs' hc n rest h this ns rest' hrec ih =>
    rw [hrec] at ih
    simp only at ih
    simp only [List.length_cons]
    omega
  | case3 => simp
  | case4 => simp

theorem length_portMap (cs : List Char) : (portMap cs).2.length ≤ cs.length := by
  unfold portMap
  split
  · exact length_skipGaps cs
  · rename_i n rest h
    have h₁ := length_signed? h
    have h₂ := length_skipGaps cs
    have h₃ := length_moreNumbers rest
    have h₄ := length_skipGaps (moreNumbers rest).2
    simp only
    omega

theorem length_port? {n : Nat} {cs rest : List Char} (h : port? cs = some (n, rest)) :
    rest.length ≤ cs.length := by
  unfold port? at h
  obtain ⟨⟨m, r⟩, hr, he⟩ := Option.map_eq_some_iff.1 h
  cases he
  have h₁ := length_digits? hr
  have h₂ := length_skipGaps cs
  have h₃ := length_skipGaps r
  simp only
  omega

theorem length_connection? {c : Connection} {cs rest : List Char}
    (h : connection? cs = some (c, rest)) : rest.length < cs.length := by
  unfold connection? at h
  split at h
  · rename_i l ls r₁ hi
    have h₁ := length_item cs
    rw [hi] at h₁
    split at h
    · rename_i port r₂ hp
      have h₂ := length_port? hp
      split at h
      · rename_i key r₃ hk
        have h₃ := length_item r₂
        rw [hk] at h₃
        have h₄ := length_portMap r₃
        obtain ⟨rfl, rfl⟩ := Prod.mk.inj (Option.some.inj h)
        simp only [List.length_cons] at h₁ h₂ h₃
        exact Nat.lt_of_le_of_lt h₄ (by omega)
      · cases h
    · cases h
  · cases h

/-! ## Reading whole texts -/

/-- Reads further entries, each after a `;`. -/
def moreConnections (cs : List Char) : List Connection × List Char :=
  match cs with
  | ';' :: cs' =>
    match h : connection? cs' with
    | some (c, rest) =>
      have : rest.length < cs'.length + 1 := Nat.lt_succ_of_lt (length_connection? h)
      let (more, rest) := moreConnections rest
      (c :: more, rest)
    | none => ([], ';' :: cs')
  | _ => ([], cs)
termination_by cs.length

/-- Reads entries as far as they go. -/
def entries (cs : List Char) : List Connection × List Char :=
  match connection? cs with
  | none => ([], cs)
  | some (c, rest) =>
    let (more, rest) := moreConnections rest
    (c :: more, rest)

/-- Why a text is no list of connections: the byte at which reading stopped. -/
structure StoppedAt where
  offset : Nat
deriving DecidableEq, Repr

/-- The wording of a stop. -/
def StoppedAt.message (e : StoppedAt) : String :=
  s!"unexpected input at offset {e.offset}"

/-- Reads a `connections` field. -/
def read (text : String) : Except StoppedAt (List Connection) :=
  let cs := trimChars text.toList
  let (found, rest) := entries cs
  let rest :=
    match rest with
    | ';' :: r => r
    | r => r
  if rest.isEmpty then .ok found
  else .error ⟨byteLength cs - byteLength rest⟩

/-! ## Reading a record -/

/-- Why the fields of an interface are no record. -/
inductive RecordFault where
  | nodeCount (text : String)
  | connections (stop : StoppedAt)
deriving DecidableEq, Repr

namespace RecordFault

/-- The field that could not be read. -/
def field : RecordFault → String
  | .nodeCount _ => nodeCountField
  | .connections _ => connectionsField

/-- The wording of a record fault. -/
def message : RecordFault → String
  | .nodeCount text => "`" ++ text ++ "` is not a node count"
  | .connections stop => stop.message

end RecordFault

/-- Reads an interface record from its two fields. Without a node count the
interface was never recorded. -/
def readRecord (nodeCount connections : Option String) :
    Except RecordFault (Option InterfaceRecord) :=
  match nodeCount with
  | none => .ok none
  | some text =>
    match Text.readCount (Text.trim text) with
    | .error _ => .error (.nodeCount text)
    | .ok count =>
      match connections with
      | none => .ok (some ⟨count, []⟩)
      | some list =>
        match read list with
        | .error stop => .error (.connections stop)
        | .ok found => .ok (some ⟨count, found⟩)

end Netlist.Connections
