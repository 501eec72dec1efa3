import MltByteps.Lib.Memory
import MltByteps.Ps.Meta
import Mathlib.Data.Int.Bitwise

/-! `PackMeta` and `UnpackMeta`: a fixed header, the body, the data types and the nodes, one after
the other in a buffer. -/

namespace Ps
open LittleEndian

/-! ## Raw values -/

/-- An `int` in memory. -/
def intBytes (x : ℤ) : List UInt8 := leBytes 4 (x % 2 ^ 32).toNat

def ofIntBytes (bs : List UInt8) : ℤ := Int.bmod (ofLeBytes bs) (2 ^ 32)

/-- A `uint64_t` in memory. -/
def u64Bytes (x : ℕ) : List UInt8 := leBytes 8 x

def boolByte (b : Bool) : UInt8 := if b then 1 else 0

/-- The values of `int`. -/
def IsInt (x : ℤ) : Prop := -2 ^ 31 ≤ x ∧ x < 2 ^ 31

instance (x : ℤ) : Decidable (IsInt x) := inferInstanceAs (Decidable (_ ∧ _))

theorem ofIntBytes_intBytes {x : ℤ} (h : IsInt x) : ofIntBytes (intBytes x) = x := by
  obtain ⟨hlo, hhi⟩ := h
  unfold ofIntBytes intBytes
  rw [ofLeBytes_leBytes_of_lt (by omega), Int.bmod_def]
  split_ifs <;> omega

theorem ofLeBytes_u64Bytes {x : ℕ} (h : x < 2 ^ 64) : ofLeBytes (u64Bytes x) = x :=
  ofLeBytes_leBytes_of_lt h

theorem boolByte_ne_zero (b : Bool) : (boolByte b != 0) = b := by cases b <;> rfl

namespace Role

def toInt : Role → ℤ
  | .server => 0
  | .worker => 1
  | .scheduler => 2

/-- `static_cast<Node::Role>`, for the values of the enumeration. -/
def ofInt? (x : ℤ) : Option Role :=
  [server, worker, scheduler].find? (·.toInt = x)

theorem ofInt?_toInt (r : Role) : ofInt? r.toInt = some r := by cases r <;> rfl

end Role

namespace Command

def toInt : Command → ℤ
  | .empty => 0
  | .terminate => 1
  | .addNode => 2
  | .barrier => 3
  | .ack => 4
  | .heartbeat => 5

def ofInt? (x : ℤ) : Option Command :=
  [empty, terminate, addNode, barrier, ack, heartbeat].find? (·.toInt = x)

theorem ofInt?_toInt (c : Command) : ofInt? c.toInt = some c := by cases c <;> rfl

end Command

namespace DataType

def toInt : DataType → ℤ
  | .char => 0
  | .int8 => 1
  | .int16 => 2
  | .int32 => 3
  | .int64 => 4
  | .uint8 => 5
  | .uint16 => 6
  | .uint32 => 7
  | .uint64 => 8
  | .float => 9
  | .double => 10
  | .other => 11

def ofInt? (x : ℤ) : Option DataType :=
  [char, int8, int16, int32, int64, uint8, uint16, uint32, uint64, float, double, other].find?
    (·.toInt = x)

theorem ofInt?_toInt (d : DataType) : ofInt? d.toInt = some d := by cases d <;> rfl

theorem isInt_toInt (d : DataType) : IsInt d.toInt := by cases d <;> decide

end DataType

/-! ## The header -/

/-- `RawMeta` with its `RawControl`. -/
@[ext]
structure RawMeta where
  head : ℤ := 0
  bodySize : ℤ := 0
  cmd : ℤ := 0
  nodeSize : ℤ := 0
  barrierGroup : ℤ := 0
  msgSig : ℕ := 0
  request : Bool := false
  appId : ℤ := 0
  timestamp : ℤ := 0
  dataTypeSize : ℤ := 0
  customerId : ℤ := 0
  push : Bool := false
  simpleApp : Bool := false
  dataSize : ℤ := 0
  key : ℕ := 0
  addr : ℕ := 0
  valLen : ℤ := 0
  option : ℤ := 0
deriving DecidableEq, Repr

/-- `sizeof(RawMeta)`. -/
def rawMetaSize : ℕ := 88

/-- The members of the structure and, cleared by `bzero`, the bytes between them. -/
def RawMeta.members (raw : RawMeta) : List (List UInt8) :=
  [intBytes raw.head, intBytes raw.bodySize, intBytes raw.cmd, intBytes raw.nodeSize,
    intBytes raw.barrierGroup, [0, 0, 0, 0], u64Bytes raw.msgSig, [boolByte raw.request],
    [0, 0, 0], intBytes raw.appId, intBytes raw.timestamp, intBytes raw.dataTypeSize,
    intBytes raw.customerId, [boolByte raw.push], [boolByte raw.simpleApp], [0, 0],
    intBytes raw.dataSize, [0, 0, 0, 0], u64Bytes raw.key, u64Bytes raw.addr, intBytes raw.valLen,
    intBytes raw.option]

def RawMeta.bytes (raw : RawMeta) : List UInt8 := raw.members.flatten

def readRawMeta (mem : Memory) (a : ℕ) : RawMeta where
  head := ofIntBytes (mem.read a 4)
  bodySize := ofIntBytes (mem.read (a + 4) 4)
  cmd := ofIntBytes (mem.read (a + 8) 4)
  nodeSize := ofIntBytes (mem.read (a + 12) 4)
  barrierGroup := ofIntBytes (mem.read (a + 16) 4)
  msgSig := ofLeBytes (mem.read (a + 24) 8)
  request := mem (a + 32) != 0
  appId := ofIntBytes (mem.read (a + 36) 4)
  timestamp := ofIntBytes (mem.read (a + 40) 4)
  dataTypeSize := ofIntBytes (mem.read (a + 44) 4)
  customerId := ofIntBytes (mem.read (a + 48) 4)
  push := mem (a + 52) != 0
  simpleApp := mem (a + 53) != 0
  dataSize := ofIntBytes (mem.read (a + 56) 4)
  key := ofLeBytes (mem.read (a + 64) 8)
  addr := ofLeBytes (mem.read (a + 72) 8)
  valLen := ofIntBytes (mem.read (a + 80) 4)
  option := ofIntBytes (mem.read (a + 84) 4)

def memberLengths : List ℕ := [4, 4, 4, 4, 4, 4, 8, 1, 3, 4, 4, 4, 4, 1, 1, 2, 4, 4, 8, 8, 4, 4]

theorem length_intBytes (x : ℤ) : (intBytes x).length = 4 := length_leBytes 4 _

theorem length_u64Bytes (x : ℕ) : (u64Bytes x).length = 8 := length_leBytes 8 _

theorem RawMeta.length_members (raw : RawMeta) :
    raw.members.map List.length = memberLengths := by
  simp only [members, List.map_cons, List.map_nil, length_intBytes, length_u64Bytes,
    List.length_cons, List.length_nil]
  rfl

theorem RawMeta.length_bytes (raw : RawMeta) : raw.bytes.length = rawMetaSize := by
  unfold bytes
  rw [List.length_flatten, length_members]
  rfl

structure RawMeta.Fits (raw : RawMeta) : Prop where
  head : IsInt raw.head
  bodySize : IsInt raw.bodySize
  cmd : IsInt raw.cmd
  nodeSize : IsInt raw.nodeSize
  barrierGroup : IsInt raw.barrierGroup
  msgSig : raw.msgSig < 2 ^ 64
  appId : IsInt raw.appId
  timestamp : IsInt raw.timestamp
  dataTypeSize : IsInt raw.dataTypeSize
  customerId : IsInt raw.customerId
  dataSize : IsInt raw.dataSize
  key : raw.key < 2 ^ 64
  addr : raw.addr < 2 ^ 64
  valLen : IsInt raw.valLen
  option : IsInt raw.option

theorem readRawMeta_of_bytes {mem : Memory} {a : ℕ} {raw : RawMeta} (hraw : raw.Fits)
    (h : mem.read a rawMetaSize = raw.bytes) : readRawMeta mem a = raw := by
  have hseg : ∀ (i : ℕ) {s : List UInt8}, raw.members[i]? = some s →
      mem.read (a + (memberLengths.take i).sum) s.length = s :=
    fun i _ hi => Memory.read_flatten raw.length_members h hi
  have hint : ∀ (i o : ℕ) {x : ℤ}, (memberLengths.take i).sum = o → IsInt x →
      raw.members[i]? = some (intBytes x) → ofIntBytes (mem.read (a + o) 4) = x := by
    intro i o x ho hx hi
    have hread := hseg i hi
    rw [length_intBytes, ho] at hread
    rw [hread, ofIntBytes_intBytes hx]
  have hu64 : ∀ (i o : ℕ) {x : ℕ}, (memberLengths.take i).sum = o → x < 2 ^ 64 →
      raw.members[i]? = some (u64Bytes x) → ofLeBytes (mem.read (a + o) 8) = x := by
    intro i o x ho hx hi
    have hread := hseg i hi
    rw [length_u64Bytes, ho] at hread
    rw [hread, ofLeBytes_u64Bytes hx]
  have hbool : ∀ (i o : ℕ) {b : Bool}, (memberLengths.take i).sum = o →
      raw.members[i]? = some [boolByte b] → (mem (a + o) != 0) = b := by
    intro i o b ho hi
    have hread : [mem (a + (memberLengths.take i).sum)] = [boolByte b] := hseg i hi
    rw [← ho, List.singleton_inj.mp hread, boolByte_ne_zero]
  unfold readRawMeta
  ext <;> dsimp only
  · exact hint 0 0 rfl hraw.head rfl
  · exact hint 1 4 rfl hraw.bodySize rfl
  · exact hint 2 8 rfl hraw.cmd rfl
  · exact hint 3 12 rfl hraw.nodeSize rfl
  · exact hint 4 16 rfl hraw.barrierGroup rfl
  · exact hu64 6 24 rfl hraw.msgSig rfl
  · exact hbool 7 32 rfl rfl
  · exact hint 9 36 rfl hraw.appId rfl
  · exact hint 10 40 rfl hraw.timestamp rfl
  · exact hint 11 44 rfl hraw.dataTypeSize rfl
  · exact hint 12 48 rfl hraw.customerId rfl
  · exact hbool 13 52 rfl rfl
  · exact hbool 14 53 rfl rfl
  · exact hint 16 56 rfl hraw.dataSize rfl
  · exact hu64 18 64 rfl hraw.key rfl
  · exact hu64 19 72 rfl hraw.addr rfl
  · exact hint 20 80 rfl hraw.valLen rfl
  · exact hint 21 84 rfl hraw.option rfl

/-! ## Nodes and data types -/

/-- `sizeof(RawNode)`. -/
def rawNodeSize : ℕ := 84

/-- One round of the loop of `PackMeta` over the nodes. -/
def packNode (n : Node) (mem : Memory) (p : ℕ) : Memory :=
  let mem := mem.write (p + 4) (intBytes n.id)
  let mem := mem.write p (intBytes n.role.toInt)
  let mem := mem.write (p + 72) (intBytes n.port)
  let mem := mem.write (p + 8) (List.replicate 64 0)
  let mem := mem.write (p + 8) n.hostname
  let mem := mem.write (p + 76) [boolByte n.isRecovery]
  mem.write (p + 80) (intBytes n.customerId)

def packNodes : List Node → Memory → ℕ → Memory
  | [], mem, _ => mem
  | n :: nodes, mem, p => packNodes nodes (packNode n mem p) (p + rawNodeSize)

/-- `std::string` of a C string that ends in the buffer. -/
def cString (mem : Memory) (p stop : ℕ) : List UInt8 := (mem.read p (stop - p)).takeWhile (· != 0)

def readNode (mem : Memory) (p stop : ℕ) : Option Node := do
  let role ← Role.ofInt? (ofIntBytes (mem.read p 4))
  return {
    role
    port := ofIntBytes (mem.read (p + 72) 4)
    hostname := cString mem (p + 8) stop
    id := ofIntBytes (mem.read (p + 4) 4)
    isRecovery := mem (p + 76) != 0
    customerId := ofIntBytes (mem.read (p + 80) 4) }

def readNodes (mem : Memory) (stop : ℕ) : ℕ → ℕ → Option (List Node)
  | 0, _ => some []
  | count + 1, p => do
    let n ← readNode mem p stop
    let nodes ← readNodes mem stop count (p + rawNodeSize)
    return n :: nodes

def packDataTypes : List DataType → Memory → ℕ → Memory
  | [], mem, _ => mem
  | d :: ds, mem, p => packDataTypes ds (mem.write p (intBytes d.toInt)) (p + 4)

def readDataTypes (mem : Memory) : ℕ → ℕ → Option (List DataType)
  | 0, _ => some []
  | count + 1, p => do
    let d ← DataType.ofInt? (ofIntBytes (mem.read p 4))
    let ds ← readDataTypes mem count (p + 4)
    return d :: ds

/-! ## The codec -/

def getPackMetaLen (m : Meta) : ℕ :=
  rawMetaSize + m.body.length + m.dataType.length * 4 + m.control.node.length * rawNodeSize

/-- What `PackMeta` stores through its pointer to the header. -/
def packHeader (m : Meta) : RawMeta :=
  let raw : RawMeta := {}
  let raw := { raw with head := m.head, appId := m.appId, timestamp := m.timestamp }
  let raw := if m.body ≠ [] then { raw with bodySize := m.body.length } else raw
  let raw := { raw with
    push := m.push, request := m.request, simpleApp := m.simpleApp, customerId := m.customerId
    dataTypeSize := m.dataType.length }
  let raw :=
    if m.control.cmd ≠ .empty then
      let raw := { raw with cmd := m.control.cmd.toInt }
      let raw :=
        if m.control.cmd = .barrier then { raw with barrierGroup := m.control.barrierGroup }
        else if m.control.cmd = .ack then { raw with msgSig := m.control.msgSig }
        else raw
      { raw with nodeSize := m.control.node.length }
    else { raw with cmd := Command.empty.toInt }
  { raw with
    dataSize := m.dataSize, key := m.key, addr := m.addr, valLen := m.valLen, option := m.option }

/-- `PackMeta` into a buffer at `a`. -/
def packMeta (m : Meta) (mem : Memory) (a : ℕ) : Memory :=
  let rawBody := a + rawMetaSize
  let rawDataType := rawBody + m.body.length
  let rawNode := rawDataType + m.dataType.length * 4
  let mem := mem.write a (packHeader m).bytes
  let mem := mem.write rawBody m.body
  let mem := packDataTypes m.dataType mem rawDataType
  if m.control.cmd ≠ .empty then packNodes m.control.node mem rawNode else mem

/-- `UnpackMeta` into a new `Meta`, if the numbers it finds belong to the enumerations. -/
def unpackMeta (mem : Memory) (a bufSize : ℕ) : Option Meta := do
  let raw := readRawMeta mem a
  let rawBody := a + rawMetaSize
  let rawDataType := rawBody + raw.bodySize.toNat
  let rawNode := rawDataType + raw.dataTypeSize.toNat * 4
  let dataType ← readDataTypes mem raw.dataTypeSize.toNat rawDataType
  let cmd ← Command.ofInt? raw.cmd
  let node ← readNodes mem (a + bufSize) raw.nodeSize.toNat rawNode
  return {
    head := raw.head, appId := raw.appId, timestamp := raw.timestamp, request := raw.request
    push := raw.push, simpleApp := raw.simpleApp
    body := mem.read rawBody raw.bodySize.toNat
    customerId := raw.customerId, dataType
    control := { cmd, node, barrierGroup := raw.barrierGroup, msgSig := raw.msgSig }
    dataSize := raw.dataSize, key := raw.key, addr := raw.addr, valLen := raw.valLen
    option := raw.option }

/-! ## What is written for the nodes -/

section Nodes

variable {n : Node} {mem mem' : Memory} {p x : ℕ}

/-- The bytes between `is_recovery` and `customer_id` of a node are not written. -/
def IsPadding (p x : ℕ) : Prop := p + 77 ≤ x ∧ x < p + 80

theorem packNode_outside (hhost : n.hostname.length ≤ 64) (hx : x < p ∨ p + rawNodeSize ≤ x) :
    packNode n mem p x = mem x := by
  have hskip : ∀ (m : Memory) (o : ℕ) (bs : List UInt8), o + bs.length ≤ 84 →
      m.write (p + o) bs x = m x := by
    intro m o bs ho
    unfold rawNodeSize at hx
    rcases hx with hx | hx
    · exact Memory.write_of_lt m bs (by omega)
    · exact Memory.write_of_ge m bs (by omega)
  unfold packNode
  rw [hskip _ 80 _ (by rw [length_intBytes]), hskip _ 76 _ (by simp), hskip _ 8 _ (by omega),
    hskip _ 8 _ (by simp), hskip _ 72 _ (by rw [length_intBytes]; omega),
    ← Nat.add_zero p, hskip _ 0 _ (by rw [length_intBytes]; omega), Nat.add_zero,
    hskip _ 4 _ (by rw [length_intBytes]; omega)]

theorem packNode_inside (hlo : p ≤ x) (hhi : x < p + rawNodeSize) (hpad : ¬IsPadding p x) :
    packNode n mem p x = packNode n mem' p x := by
  unfold packNode
  unfold IsPadding at hpad
  unfold rawNodeSize at hhi
  have hlen := length_intBytes
  by_cases h80 : p + 80 ≤ x
  · exact Memory.write_congr (.inr ⟨h80, by rw [hlen]; omega⟩)
  refine Memory.write_congr (.inl ?_)
  by_cases h76 : p + 76 ≤ x
  · exact Memory.write_congr (.inr ⟨h76, by rw [List.length_singleton]; omega⟩)
  refine Memory.write_congr (.inl (Memory.write_congr (.inl ?_)))
  by_cases h8 : p + 8 ≤ x ∧ x < p + 72
  · exact Memory.write_congr (.inr ⟨h8.1, by rw [List.length_replicate]; omega⟩)
  refine Memory.write_congr (.inl ?_)
  by_cases h72 : p + 72 ≤ x
  · exact Memory.write_congr (.inr ⟨h72, by rw [hlen]; omega⟩)
  refine Memory.write_congr (.inl ?_)
  by_cases h4 : x < p + 4
  · exact Memory.write_congr (.inr ⟨hlo, by rw [hlen]; omega⟩)
  exact Memory.write_congr (.inl (Memory.write_congr (.inr ⟨by omega, by rw [hlen]; omega⟩)))

structure HoldsNode (mem : Memory) (p : ℕ) (n : Node) : Prop where
  role : mem.read p 4 = intBytes n.role.toInt
  id : mem.read (p + 4) 4 = intBytes n.id
  hostname : mem.read (p + 8) n.hostname.length = n.hostname
  terminator : mem (p + 8 + n.hostname.length) = 0
  port : mem.read (p + 72) 4 = intBytes n.port
  isRecovery : mem (p + 76) = boolByte n.isRecovery
  customerId : mem.read (p + 80) 4 = intBytes n.customerId

structure HoldsFields (mem : Memory) (p : ℕ) (n : Node) : Prop where
  role : mem.read p 4 = intBytes n.role.toInt
  id : mem.read (p + 4) 4 = intBytes n.id
  port : mem.read (p + 72) 4 = intBytes n.port
  isRecovery : mem (p + 76) = boolByte n.isRecovery
  customerId : mem.read (p + 80) 4 = intBytes n.customerId

theorem packNode_fields (hhost : n.hostname.length ≤ 64) (mem : Memory) (p : ℕ) :
    HoldsFields (packNode n mem p) p n := by
  have hlen := length_intBytes
  have hself : ∀ (m : Memory) (a : ℕ) (y : ℤ), (m.write a (intBytes y)).read a 4 = intBytes y := by
    intro m a y
    rw [← hlen y]
    exact m.read_write_self a _
  have hskip := @Memory.read_write_disjoint
  unfold packNode
  dsimp only
  constructor
  · rw [hskip _ _ (.inl (by omega)), hskip _ _ (.inl (by omega)),
      hskip _ _ (.inl (by omega)), hskip _ _ (.inl (by omega)),
      hskip _ _ (.inl (by omega)), hself]
  · rw [hskip _ _ (.inl (by omega)), hskip _ _ (.inl (by omega)),
      hskip _ _ (.inl (by omega)), hskip _ _ (.inl (by omega)),
      hskip _ _ (.inl (by omega)), hskip _ _ (.inr (by rw [hlen])), hself]
  · rw [hskip _ _ (.inl (by omega)), hskip _ _ (.inl (by omega)),
      hskip _ _ (.inr (by omega)), hskip _ _ (.inr (by simp)), hself]
  · rw [Memory.write_of_lt _ _ (by omega)]
    exact Memory.write_add _ _ [boolByte n.isRecovery] (i := 0) (by simp)
  · exact hself _ _ _

theorem HoldsFields.congr (h : HoldsFields mem p n)
    (hmem : ∀ x, p ≤ x → x < p + rawNodeSize → mem' x = mem x) : HoldsFields mem' p n := by
  unfold rawNodeSize at hmem
  have hread : ∀ o k : ℕ, o + k ≤ 84 → mem'.read (p + o) k = mem.read (p + o) k :=
    fun o k hok => Memory.read_congr fun i hi => hmem _ (by omega) (by omega)
  exact ⟨(hread 0 4 (by omega)).trans h.role, (hread 4 4 (by omega)).trans h.id,
    (hread 72 4 (by omega)).trans h.port, (hmem _ (by omega) (by omega)).trans h.isRecovery,
    (hread 80 4 (by omega)).trans h.customerId⟩

theorem HoldsNode.fields (h : HoldsNode mem p n) : HoldsFields mem p n :=
  ⟨h.role, h.id, h.port, h.isRecovery, h.customerId⟩

theorem packNode_holds (hhost : n.hostname.length ≤ 63) (mem : Memory) (p : ℕ) :
    HoldsNode (packNode n mem p) p n := by
  have hhost' : n.hostname.length ≤ 64 := by omega
  obtain ⟨hrole, hid, hport, hrecovery, hcustomer⟩ := packNode_fields hhost' mem p
  refine ⟨hrole, hid, ?_, ?_, hport, hrecovery, hcustomer⟩
  · unfold packNode
    rw [Memory.read_write_disjoint _ _ (.inl (by omega)),
      Memory.read_write_disjoint _ _ (.inl (by omega)), Memory.read_write_self]
  · unfold packNode
    rw [Memory.write_of_lt _ _ (by omega), Memory.write_of_lt _ _ (by omega),
      Memory.write_of_ge _ _ (by omega), Memory.write_add _ _ _ (by simp; omega)]
    exact List.getElem_replicate _

theorem HoldsNode.congr (h : HoldsNode mem p n) (hhost : n.hostname.length ≤ 63)
    (hmem : ∀ x, p ≤ x → x < p + rawNodeSize → mem' x = mem x) : HoldsNode mem' p n := by
  obtain ⟨hrole, hid, hport, hrecovery, hcustomer⟩ := h.fields.congr hmem
  unfold rawNodeSize at hmem
  have hread : mem'.read (p + 8) n.hostname.length = mem.read (p + 8) n.hostname.length :=
    Memory.read_congr fun i hi => hmem _ (by omega) (by omega)
  exact ⟨hrole, hid, hread.trans h.hostname, (hmem _ (by omega) (by omega)).trans h.terminator,
    hport, hrecovery, hcustomer⟩

structure Node.Packable (n : Node) : Prop where
  id : IsInt n.id
  port : IsInt n.port
  customerId : IsInt n.customerId
  length : n.hostname.length ≤ 63
  nulFree : 0 ∉ n.hostname

theorem Role.isInt_toInt (r : Role) : IsInt r.toInt := by cases r <;> decide

theorem cString_of_terminated {host : List UInt8} {stop : ℕ} (hread : mem.read p host.length = host)
    (hnul : mem (p + host.length) = 0) (hfree : 0 ∉ host) (hstop : p + host.length < stop) :
    cString mem p stop = host := by
  obtain ⟨k, hk⟩ := Nat.exists_eq_add_of_lt hstop
  have hsplit : mem.read p (stop - p) = host ++ 0 :: mem.read (p + host.length + 1) k := by
    rw [show stop - p = host.length + (1 + k) by omega, Memory.read_append, hread,
      Memory.read_append]
    congr 1
    exact congrArg (· :: _) hnul
  unfold cString
  rw [hsplit, List.takeWhile_append_of_pos, List.takeWhile_cons_of_neg (by simp), List.append_nil]
  intro c hc
  have hne : c ≠ 0 := fun he => hfree (he ▸ hc)
  simpa using hne

structure Node.Typed (n : Node) : Prop where
  id : IsInt n.id
  port : IsInt n.port
  customerId : IsInt n.customerId

theorem Node.Packable.typed (h : n.Packable) : n.Typed := ⟨h.id, h.port, h.customerId⟩

theorem HoldsFields.readNode (h : HoldsFields mem p n) (hn : n.Typed) (stop : ℕ) :
    readNode mem p stop = some { n with hostname := cString mem (p + 8) stop } := by
  unfold Ps.readNode
  rw [h.role, ofIntBytes_intBytes n.role.isInt_toInt, Role.ofInt?_toInt, h.port,
    ofIntBytes_intBytes hn.port, h.id, ofIntBytes_intBytes hn.id, h.isRecovery,
    boolByte_ne_zero, h.customerId, ofIntBytes_intBytes hn.customerId]
  rfl

theorem HoldsNode.readNode {stop : ℕ} (h : HoldsNode mem p n) (hn : n.Packable)
    (hstop : p + rawNodeSize ≤ stop) : readNode mem p stop = some n := by
  unfold rawNodeSize at hstop
  have hlen := hn.length
  rw [h.fields.readNode hn.typed, cString_of_terminated h.hostname h.terminator hn.nulFree
    (show p + 8 + n.hostname.length < stop by omega)]

/-! ## What is written for all nodes -/

theorem packNodes_outside {nodes : List Node} (hhost : ∀ n ∈ nodes, n.hostname.length ≤ 64)
    (hx : x < p ∨ p + nodes.length * rawNodeSize ≤ x) : packNodes nodes mem p x = mem x := by
  induction nodes generalizing mem p with
  | nil => rfl
  | cons n nodes ih =>
    rw [List.length_cons, Nat.add_mul, Nat.one_mul] at hx
    rw [packNodes, ih (fun n hn => hhost n (List.mem_cons_of_mem _ hn)) (by omega),
      packNode_outside (hhost n List.mem_cons_self) (by omega)]

theorem packNodes_inside {nodes : List Node} (hhost : ∀ n ∈ nodes, n.hostname.length ≤ 64)
    (hlo : p ≤ x) (hhi : x < p + nodes.length * rawNodeSize)
    (hpad : ∀ i < nodes.length, ¬IsPadding (p + i * rawNodeSize) x) :
    packNodes nodes mem p x = packNodes nodes mem' p x := by
  induction nodes generalizing mem mem' p with
  | nil =>
    rw [List.length_nil, Nat.zero_mul] at hhi
    omega
  | cons n nodes ih =>
    rw [List.length_cons, Nat.add_mul, Nat.one_mul] at hhi
    have hrest : ∀ n ∈ nodes, n.hostname.length ≤ 64 :=
      fun n hn => hhost n (List.mem_cons_of_mem _ hn)
    rw [packNodes, packNodes]
    by_cases hx : x < p + rawNodeSize
    · rw [packNodes_outside hrest (.inl hx), packNodes_outside hrest (.inl hx)]
      refine packNode_inside hlo hx ?_
      have hzero := hpad 0 (by simp)
      rwa [Nat.zero_mul, Nat.add_zero] at hzero
    · refine ih hrest (by omega) (by omega) fun i hi => ?_
      have hsucc := hpad (i + 1) (by simpa using hi)
      rwa [Nat.add_mul, Nat.one_mul, Nat.add_comm (i * _), ← Nat.add_assoc] at hsucc

theorem readNodes_packNodes {nodes : List Node} {stop : ℕ} (hnodes : ∀ n ∈ nodes, n.Packable)
    (hstop : p + nodes.length * rawNodeSize ≤ stop) :
    readNodes (packNodes nodes mem p) stop nodes.length p = some nodes := by
  induction nodes generalizing mem p with
  | nil => rfl
  | cons n nodes ih =>
    have hn := hnodes n List.mem_cons_self
    have hrest : ∀ n ∈ nodes, n.Packable := fun n hn => hnodes n (List.mem_cons_of_mem _ hn)
    have hlen : ∀ n ∈ nodes, n.hostname.length ≤ 64 := fun n hn => by
      have := (hrest n hn).length
      omega
    rw [List.length_cons, Nat.add_mul, Nat.one_mul] at hstop
    -- The later nodes lie behind this one.
    have hholds : HoldsNode (packNodes (n :: nodes) mem p) p n :=
      (packNode_holds hn.length mem p).congr hn.length
        fun x _ hx => packNodes_outside hlen (.inl hx)
    rw [List.length_cons, readNodes, hholds.readNode hn (by omega), packNodes,
      ih hrest (by omega)]
    rfl

/-! ## Data types -/

theorem packDataTypes_eq (ds : List DataType) (mem : Memory) (p : ℕ) :
    packDataTypes ds mem p = mem.write p (ds.flatMap fun d => intBytes d.toInt) := by
  induction ds generalizing mem p with
  | nil =>
    funext x
    by_cases hx : x < p
    · exact (Memory.write_of_lt mem [] hx).symm
    · exact (Memory.write_of_ge mem [] (by simpa using hx)).symm
  | cons d ds ih =>
    have happend := mem.write_append p (intBytes d.toInt) (ds.flatMap fun d => intBytes d.toInt)
    rw [length_intBytes] at happend
    rw [packDataTypes, ih, happend, List.flatMap_cons]

theorem length_dataTypeBytes (ds : List DataType) :
    (ds.flatMap fun d => intBytes d.toInt).length = ds.length * 4 := by
  induction ds with
  | nil => rfl
  | cons d ds ih =>
    rw [List.flatMap_cons, List.length_append, ih, length_intBytes, List.length_cons]
    omega

theorem readDataTypes_of_read {ds : List DataType}
    (h : mem.read p (ds.length * 4) = ds.flatMap fun d => intBytes d.toInt) :
    readDataTypes mem ds.length p = some ds := by
  induction ds generalizing p with
  | nil => rfl
  | cons d ds ih =>
    rw [List.length_cons, show (ds.length + 1) * 4 = 4 + ds.length * 4 by omega,
      Memory.read_append, List.flatMap_cons] at h
    obtain ⟨hd, hds⟩ := List.append_inj h (by rw [Memory.length_read, length_intBytes])
    rw [List.length_cons, readDataTypes, hd, ofIntBytes_intBytes d.isInt_toInt,
      DataType.ofInt?_toInt, ih hds]
    rfl

end Nodes

/-! ## Round trip -/

/-- The members have the values of their types, the nodes can be packed without loss, and the
length that `PackMeta` returns is an `int`. -/
structure Meta.Packable (m : Meta) : Prop where
  head : IsInt m.head
  appId : IsInt m.appId
  customerId : IsInt m.customerId
  timestamp : IsInt m.timestamp
  barrierGroup : IsInt m.control.barrierGroup
  msgSig : m.control.msgSig < 2 ^ 64
  dataSize : IsInt m.dataSize
  key : m.key < 2 ^ 64
  addr : m.addr < 2 ^ 64
  valLen : IsInt m.valLen
  option : IsInt m.option
  nodes : ∀ n ∈ m.control.node, n.Packable
  length : getPackMetaLen m < 2 ^ 31

structure Meta.Typed (m : Meta) : Prop where
  head : IsInt m.head
  appId : IsInt m.appId
  customerId : IsInt m.customerId
  timestamp : IsInt m.timestamp
  barrierGroup : IsInt m.control.barrierGroup
  msgSig : m.control.msgSig < 2 ^ 64
  dataSize : IsInt m.dataSize
  key : m.key < 2 ^ 64
  addr : m.addr < 2 ^ 64
  valLen : IsInt m.valLen
  option : IsInt m.option
  nodes : ∀ n ∈ m.control.node, n.Typed
  length : getPackMetaLen m < 2 ^ 31

theorem Meta.Packable.typed {m : Meta} (h : m.Packable) : m.Typed :=
  { h with nodes := fun n hn => (h.nodes n hn).typed }

/-- What `UnpackMeta` can restore. -/
def Meta.restored (m : Meta) : Meta :=
  { m with
    sender := kEmpty
    recver := kEmpty
    control := {
      cmd := m.control.cmd
      node := if m.control.cmd = .empty then [] else m.control.node
      barrierGroup := if m.control.cmd = .barrier then m.control.barrierGroup else 0
      msgSig := if m.control.cmd = .ack then m.control.msgSig else 0 } }

theorem packHeader_eq (m : Meta) : packHeader m =
    { head := m.head, bodySize := m.body.length, cmd := m.control.cmd.toInt
      nodeSize := if m.control.cmd = .empty then 0 else m.control.node.length
      barrierGroup := if m.control.cmd = .barrier then m.control.barrierGroup else 0
      msgSig := if m.control.cmd = .ack then m.control.msgSig else 0
      request := m.request, appId := m.appId, timestamp := m.timestamp
      dataTypeSize := m.dataType.length, customerId := m.customerId, push := m.push
      simpleApp := m.simpleApp, dataSize := m.dataSize, key := m.key, addr := m.addr
      valLen := m.valLen, option := m.option } := by
  unfold packHeader
  rcases hbody : m.body with _ | ⟨b, body⟩ <;> rcases hcmd : m.control.cmd <;> rfl

theorem packHeader_fits {m : Meta} (h : m.Typed) : (packHeader m).Fits := by
  have hlen := h.length
  unfold getPackMetaLen rawMetaSize rawNodeSize at hlen
  have hnat : ∀ k : ℕ, k < 2 ^ 31 → IsInt k := fun k hk => ⟨by omega, by exact_mod_cast hk⟩
  rw [packHeader_eq]
  constructor
  · exact h.head
  · exact hnat _ (by omega)
  · dsimp only
    cases m.control.cmd <;> decide
  · dsimp only
    split_ifs
    · exact hnat 0 (by omega)
    · exact hnat _ (by omega)
  · dsimp only
    split_ifs
    · exact h.barrierGroup
    · exact hnat 0 (by omega)
  · dsimp only
    split_ifs
    · exact h.msgSig
    · exact Nat.two_pow_pos 64
  · exact h.appId
  · exact h.timestamp
  · exact hnat _ (by omega)
  · exact h.customerId
  · exact h.dataSize
  · exact h.key
  · exact h.addr
  · exact h.valLen
  · exact h.option

def frontBytes (m : Meta) : List UInt8 :=
  (packHeader m).bytes ++ m.body ++ m.dataType.flatMap fun d => intBytes d.toInt

def nodeOffset (m : Meta) : ℕ := rawMetaSize + m.body.length + m.dataType.length * 4

/-- The number of bytes that `PackMeta` fills. -/
def filledLen (m : Meta) : ℕ :=
  nodeOffset m + if m.control.cmd = .empty then 0 else m.control.node.length * rawNodeSize

theorem length_frontBytes (m : Meta) : (frontBytes m).length = nodeOffset m := by
  unfold frontBytes nodeOffset
  rw [List.length_append, List.length_append, RawMeta.length_bytes, length_dataTypeBytes]

theorem packMeta_eq (m : Meta) (mem : Memory) (a : ℕ) : packMeta m mem a =
    if m.control.cmd = .empty then mem.write a (frontBytes m)
    else packNodes m.control.node (mem.write a (frontBytes m)) (a + nodeOffset m) := by
  have hfront : packDataTypes m.dataType ((mem.write a (packHeader m).bytes).write (a + rawMetaSize)
      m.body) (a + rawMetaSize + m.body.length) = mem.write a (frontBytes m) := by
    have hbody := mem.write_append a (packHeader m).bytes m.body
    rw [RawMeta.length_bytes] at hbody
    rw [packDataTypes_eq, hbody]
    have hall := mem.write_append a ((packHeader m).bytes ++ m.body)
      (m.dataType.flatMap fun d => intBytes d.toInt)
    rw [List.length_append, RawMeta.length_bytes, ← Nat.add_assoc] at hall
    exact hall
  unfold packMeta nodeOffset
  dsimp only
  rw [hfront]
  by_cases hcmd : m.control.cmd = .empty
  · rw [if_neg (not_not_intro hcmd), if_pos hcmd]
  · rw [if_pos hcmd, if_neg hcmd]
    congr 1
    omega

/-- The bytes between the members of the nodes. -/
def NodePadding (m : Meta) (a x : ℕ) : Prop :=
  ∃ i < m.control.node.length, IsPadding (a + nodeOffset m + i * rawNodeSize) x

section Pack

variable {m : Meta} {mem mem' : Memory} {a x : ℕ}

theorem Meta.Packable.host_le (h : m.Packable) : ∀ n ∈ m.control.node, n.hostname.length ≤ 64 :=
  fun n hn => (h.nodes n hn).length.trans (by omega)

theorem packMeta_outside (hhost : ∀ n ∈ m.control.node, n.hostname.length ≤ 64)
    (hx : x < a ∨ a + filledLen m ≤ x) :
    packMeta m mem a x = mem x := by
  have hfront := length_frontBytes m
  have hwrite : x < a ∨ a + nodeOffset m ≤ x → mem.write a (frontBytes m) x = mem x := by
    rintro (hx | hx)
    · exact Memory.write_of_lt _ _ hx
    · exact Memory.write_of_ge _ _ (by omega)
  unfold filledLen at hx
  rw [packMeta_eq]
  split_ifs at hx ⊢ with hcmd
  · exact hwrite hx
  · rw [packNodes_outside hhost (by omega), hwrite (by omega)]

theorem packMeta_inside (h : m.Packable) (hlo : a ≤ x) (hhi : x < a + filledLen m)
    (hpad : ¬NodePadding m a x) : packMeta m mem a x = packMeta m mem' a x := by
  have hfront := length_frontBytes m
  have hwrite : x < a + nodeOffset m →
      mem.write a (frontBytes m) x = mem'.write a (frontBytes m) x :=
    fun hx => Memory.write_congr (.inr ⟨hlo, by omega⟩)
  unfold filledLen at hhi
  rw [packMeta_eq, packMeta_eq]
  split_ifs at hhi ⊢ with hcmd
  · exact hwrite (by omega)
  · by_cases hx : x < a + nodeOffset m
    · rw [packNodes_outside h.host_le (.inl hx), packNodes_outside h.host_le (.inl hx), hwrite hx]
    · exact packNodes_inside h.host_le (by omega) (by omega) fun i hi hp => hpad ⟨i, hi, hp⟩

theorem packMeta_read (hhost : ∀ n ∈ m.control.node, n.hostname.length ≤ 64) {o k : ℕ}
    (hok : o + k ≤ nodeOffset m) :
    (packMeta m mem a).read (a + o) k = ((frontBytes m).drop o).take k := by
  have hfront := length_frontBytes m
  rw [← mem.read_write_sub a o k (frontBytes m) (by omega), packMeta_eq]
  split_ifs with hcmd
  · rfl
  · exact Memory.read_congr fun i hi => packNodes_outside hhost (.inl (by omega))

theorem unpackMeta_front (h : m.Typed)
    (hhost : ∀ n ∈ m.control.node, n.hostname.length ≤ 64) (mem : Memory) (a : ℕ) :
    unpackMeta (packMeta m mem a) a (getPackMetaLen m) =
      (readNodes (packMeta m mem a) (a + getPackMetaLen m)
        (if m.control.cmd = .empty then 0 else m.control.node.length) (a + nodeOffset m)).map
          fun node => { m.restored with control := { m.restored.control with node } } := by
  have hsize := RawMeta.length_bytes (packHeader m)
  have hoff : nodeOffset m = rawMetaSize + m.body.length + m.dataType.length * 4 := rfl
  have hheader : readRawMeta (packMeta m mem a) a = packHeader m := by
    refine readRawMeta_of_bytes (packHeader_fits h) ?_
    have hread : (packMeta m mem a).read (a + 0) rawMetaSize = _ := packMeta_read hhost (by omega)
    rw [Nat.add_zero, List.drop_zero] at hread
    rw [hread, frontBytes, List.append_assoc, ← hsize, List.take_left]
  have hbody : (packMeta m mem a).read (a + rawMetaSize) m.body.length = m.body := by
    rw [packMeta_read hhost (by omega), frontBytes, List.append_assoc, ← hsize, List.drop_left,
      List.take_left]
  have htypes : readDataTypes (packMeta m mem a) m.dataType.length
      (a + rawMetaSize + m.body.length) = some m.dataType := by
    refine readDataTypes_of_read ?_
    rw [Nat.add_assoc, packMeta_read hhost (by omega), frontBytes, ← hsize, ← List.length_append,
      List.drop_left, ← length_dataTypeBytes, List.take_length]
  have hcount : (if m.control.cmd = .empty then (0 : ℤ) else m.control.node.length).toNat =
      if m.control.cmd = .empty then 0 else m.control.node.length := by
    split_ifs <;> simp
  have hstart : a + rawMetaSize + m.body.length + m.dataType.length * 4 = a + nodeOffset m := by
    omega
  unfold unpackMeta
  dsimp only
  rw [hheader, packHeader_eq]
  dsimp only
  rw [Int.toNat_natCast, Int.toNat_natCast, htypes, hbody, Command.ofInt?_toInt, hcount, hstart]
  cases readNodes (packMeta m mem a) _ _ _ <;> rfl

theorem unpackMeta_packMeta (h : m.Packable) (mem : Memory) (a : ℕ) :
    unpackMeta (packMeta m mem a) a (getPackMetaLen m) = some m.restored := by
  have hnodes : readNodes (packMeta m mem a) (a + getPackMetaLen m)
      (if m.control.cmd = .empty then 0 else m.control.node.length) (a + nodeOffset m) =
        some (if m.control.cmd = .empty then [] else m.control.node) := by
    rw [packMeta_eq]
    split_ifs with hcmd
    · rfl
    · refine readNodes_packNodes h.nodes ?_
      unfold getPackMetaLen nodeOffset
      omega
  rw [unpackMeta_front h.typed h.host_le, hnodes]
  rfl

theorem packMeta_restored (h : m.control.cmd ≠ .empty ∨ m.control.node = []) :
    packMeta m.restored = packMeta m := by
  have hnode : m.restored.control.node = m.control.node := by
    unfold Meta.restored
    dsimp only
    split_ifs with hcmd
    · exact (h.resolve_left (not_not_intro hcmd)).symm
    · rfl
  have hheader : packHeader m.restored = packHeader m := by
    rw [packHeader_eq, packHeader_eq, hnode]
    unfold Meta.restored
    dsimp only
    congr 1
    · split_ifs <;> rfl
    · split_ifs <;> rfl
  unfold packMeta
  rw [hheader, hnode]
  rfl

end Pack

/-- What a pass through the codec does for a `Meta`. -/
structure RoundTrips (m : Meta) (mem : Memory) (a : ℕ) : Prop where
  -- Nothing but the filled bytes changes.
  outside : ∀ x, x < a ∨ a + filledLen m ≤ x → packMeta m mem a x = mem x
  -- Every filled byte but the padding is given by the `Meta`.
  inside : ∀ mem' x, a ≤ x → x < a + filledLen m → ¬NodePadding m a x →
    packMeta m mem a x = packMeta m mem' a x
  filled : m.control.cmd ≠ .empty ∨ m.control.node = [] → filledLen m = getPackMetaLen m
  unpacked : unpackMeta (packMeta m mem a) a (getPackMetaLen m) = some m.restored
  repacked : m.control.cmd ≠ .empty ∨ m.control.node = [] →
    getPackMetaLen m.restored = getPackMetaLen m ∧
    ∀ mem' x, a ≤ x → x < a + getPackMetaLen m → ¬NodePadding m a x →
      packMeta m.restored mem' a x = packMeta m mem a x

theorem packMeta_roundTrips {m : Meta} (h : m.Packable) (mem : Memory) (a : ℕ) :
    RoundTrips m mem a := by
  have hfilled : m.control.cmd ≠ .empty ∨ m.control.node = [] →
      filledLen m = getPackMetaLen m := by
    intro hcase
    unfold filledLen getPackMetaLen nodeOffset
    split_ifs with hcmd
    · rw [hcase.resolve_left (not_not_intro hcmd)]
      simp
    · rfl
  refine ⟨fun x => packMeta_outside h.host_le, fun mem' x => packMeta_inside h, hfilled,
    unpackMeta_packMeta h mem a, fun hcase => ⟨?_, fun mem' x hlo hhi hpad => ?_⟩⟩
  · unfold getPackMetaLen
    dsimp only [Meta.restored]
    split_ifs with hcmd
    · rw [hcase.resolve_left (not_not_intro hcmd)]
    · rfl
  · rw [packMeta_restored hcase]
    exact packMeta_inside h hlo (by rwa [hfilled hcase]) hpad

def oneNode : Meta :=
  { head := 1, appId := 2, timestamp := 3, customerId := 4, body := [7, 0, 8], dataType := [.float]
    control := { cmd := .addNode, node := [{ role := .worker, id := 9, hostname := [49] }] } }

theorem packMeta_roundTrips_oneNode : oneNode.Packable ∧ RoundTrips oneNode (fun _ => 255) 16 := by
  have h : oneNode.Packable := by
    refine ⟨by decide, by decide, by decide, by decide, by decide, by decide, by decide, by decide,
      by decide, by decide, by decide, fun n hn => ?_, by decide⟩
    rw [List.mem_singleton.mp hn]
    exact ⟨by decide, by decide, by decide, by decide, by decide⟩
  exact ⟨h, packMeta_roundTrips h _ _⟩

/-- The node of an empty control has its place in the buffer, but nothing is written there. -/
theorem empty_control_node_unwritten :
    let m : Meta := { control := { node := [{ role := .server, id := 8, port := 1 }] } }
    m.Packable ∧ 88 < getPackMetaLen m ∧
      packMeta m (fun _ => 0) 0 88 = 0 ∧ packMeta m (fun _ => 1) 0 88 = 1 := by
  refine ⟨⟨by decide, by decide, by decide, by decide, by decide, by decide, by decide, by decide,
    by decide, by decide, by decide, fun n hn => ?_, by decide⟩, by decide +kernel⟩
  rw [List.mem_singleton.mp hn]
  exact ⟨by decide, by decide, by decide, by decide, by decide⟩

end Ps
