import MltByteps.Ps.MetaCodec

/-! Packed meta data that is moved to another place: by a socket or by a remote write. -/

namespace Ps

def Meta.IsImage (m : Meta) (bytes : List UInt8) : Prop :=
  ∃ mem a, (packMeta m mem a).read a (getPackMetaLen m) = bytes

theorem Meta.IsImage.length {m : Meta} {bytes : List UInt8} (h : m.IsImage bytes) :
    bytes.length = getPackMetaLen m := by
  obtain ⟨mem, a, rfl⟩ := h
  exact Memory.length_read ..

instance (n : Node) : Decidable n.Packable :=
  decidable_of_iff (IsInt n.id ∧ IsInt n.port ∧ IsInt n.customerId ∧ n.hostname.length ≤ 63 ∧
    0 ∉ n.hostname) ⟨fun ⟨a, b, c, d, e⟩ => ⟨a, b, c, d, e⟩, fun ⟨a, b, c, d, e⟩ => ⟨a, b, c, d, e⟩⟩

instance (m : Meta) : Decidable m.Packable :=
  decidable_of_iff (IsInt m.head ∧ IsInt m.appId ∧ IsInt m.customerId ∧ IsInt m.timestamp ∧
    IsInt m.control.barrierGroup ∧ m.control.msgSig < 2 ^ 64 ∧ IsInt m.dataSize ∧ m.key < 2 ^ 64 ∧
    m.addr < 2 ^ 64 ∧ IsInt m.valLen ∧ IsInt m.option ∧ (∀ n ∈ m.control.node, n.Packable) ∧
    getPackMetaLen m < 2 ^ 31)
    ⟨fun ⟨a, b, c, d, e, f, g, h, i, j, k, l, m⟩ => ⟨a, b, c, d, e, f, g, h, i, j, k, l, m⟩,
      fun ⟨a, b, c, d, e, f, g, h, i, j, k, l, m⟩ => ⟨a, b, c, d, e, f, g, h, i, j, k, l, m⟩⟩

section Moved

variable {mem mem' : Memory} {a a' n : ℕ} (hmove : mem'.read a' n = mem.read a n)

include hmove

theorem readRawMeta_moved (hn : rawMetaSize ≤ n) : readRawMeta mem' a' = readRawMeta mem a := by
  unfold rawMetaSize at hn
  have hread : ∀ o k : ℕ, o + k ≤ 88 → mem'.read (a' + o) k = mem.read (a + o) k :=
    fun o k hok => Memory.read_moved hmove (by omega)
  have hbyte : ∀ o < 88, mem' (a' + o) = mem (a + o) :=
    fun o ho => Memory.apply_moved hmove (by omega)
  have hhead : mem'.read a' 4 = mem.read a 4 := hread 0 4 (by omega)
  unfold readRawMeta
  rw [hhead, hread 4 4 (by omega), hread 8 4 (by omega), hread 12 4 (by omega),
    hread 16 4 (by omega), hread 24 8 (by omega), hbyte 32 (by omega), hread 36 4 (by omega),
    hread 40 4 (by omega), hread 44 4 (by omega), hread 48 4 (by omega), hbyte 52 (by omega),
    hbyte 53 (by omega), hread 56 4 (by omega), hread 64 8 (by omega), hread 72 8 (by omega),
    hread 80 4 (by omega), hread 84 4 (by omega)]

theorem readDataTypes_moved {count o : ℕ} (h : o + count * 4 ≤ n) :
    readDataTypes mem' count (a' + o) = readDataTypes mem count (a + o) := by
  induction count generalizing o with
  | zero => rfl
  | succ count ih =>
    rw [readDataTypes, readDataTypes, Memory.read_moved hmove (by omega), Nat.add_assoc,
      Nat.add_assoc, ih (by omega)]

theorem readNode_moved {o : ℕ} (h : o + rawNodeSize ≤ n) :
    readNode mem' (a' + o) (a' + n) = readNode mem (a + o) (a + n) := by
  unfold rawNodeSize at h
  have hread : ∀ q k : ℕ, q + k ≤ 84 → mem'.read (a' + o + q) k = mem.read (a + o + q) k := by
    intro q k hqk
    rw [Nat.add_assoc, Nat.add_assoc]
    exact Memory.read_moved hmove (by omega)
  have hrole : mem'.read (a' + o) 4 = mem.read (a + o) 4 := hread 0 4 (by omega)
  have hbyte : mem' (a' + o + 76) = mem (a + o + 76) := by
    rw [Nat.add_assoc, Nat.add_assoc]
    exact Memory.apply_moved hmove (by omega)
  have hhost : cString mem' (a' + o + 8) (a' + n) = cString mem (a + o + 8) (a + n) := by
    unfold cString
    rw [show a' + n - (a' + o + 8) = n - (o + 8) by omega,
      show a + n - (a + o + 8) = n - (o + 8) by omega, Nat.add_assoc, Nat.add_assoc,
      Memory.read_moved hmove (by omega)]
  unfold readNode
  rw [hrole, hread 72 4 (by omega), hhost, hread 4 4 (by omega), hbyte, hread 80 4 (by omega)]

theorem readNodes_moved {count o : ℕ} (h : o + count * rawNodeSize ≤ n) :
    readNodes mem' (a' + n) count (a' + o) = readNodes mem (a + n) count (a + o) := by
  induction count generalizing o with
  | zero => rfl
  | succ count ih =>
    rw [Nat.succ_mul] at h
    rw [readNodes, readNodes, readNode_moved hmove (by omega), Nat.add_assoc, Nat.add_assoc,
      ih (by omega)]

end Moved

theorem length_of_readDataTypes {mem : Memory} {count p : ℕ} {ds : List DataType}
    (h : readDataTypes mem count p = some ds) : ds.length = count := by
  induction count generalizing p ds with
  | zero =>
    cases h
    rfl
  | succ count ih =>
    rw [readDataTypes, Option.bind_eq_bind] at h
    obtain ⟨d, -, h⟩ := Option.bind_eq_some_iff.mp h
    obtain ⟨ds', hds', h⟩ := Option.bind_eq_some_iff.mp h
    cases h
    rw [List.length_cons, ih hds']

theorem length_of_readNodes {mem : Memory} {stop count p : ℕ} {nodes : List Node}
    (h : readNodes mem stop count p = some nodes) : nodes.length = count := by
  induction count generalizing p nodes with
  | zero =>
    cases h
    rfl
  | succ count ih =>
    rw [readNodes, Option.bind_eq_bind] at h
    obtain ⟨n, -, h⟩ := Option.bind_eq_some_iff.mp h
    obtain ⟨nodes', hnodes', h⟩ := Option.bind_eq_some_iff.mp h
    cases h
    rw [List.length_cons, ih hnodes']

theorem unpackMeta_moved {mem mem' : Memory} {a a' n : ℕ} {m : Meta}
    (hmove : mem'.read a' n = mem.read a n) (h : unpackMeta mem a n = some m)
    (hlen : getPackMetaLen m ≤ n) : unpackMeta mem' a' n = some m := by
  have hraw : readRawMeta mem' a' = readRawMeta mem a := by
    refine readRawMeta_moved hmove (Nat.le_trans ?_ hlen)
    unfold getPackMetaLen
    omega
  have hunpack := h
  unfold unpackMeta at h
  rw [Option.bind_eq_bind] at h
  obtain ⟨types, htypes, h⟩ := Option.bind_eq_some_iff.mp h
  obtain ⟨cmd, -, h⟩ := Option.bind_eq_some_iff.mp h
  obtain ⟨nodes, hnodes, h⟩ := Option.bind_eq_some_iff.mp h
  obtain rfl := Option.some.inj h
  -- The numbers in the header are the lengths of what was unpacked.
  unfold getPackMetaLen at hlen
  dsimp only at hlen
  rw [Memory.length_read, length_of_readDataTypes htypes, length_of_readNodes hnodes] at hlen
  rw [← hunpack]
  unfold unpackMeta
  dsimp only
  rw [hraw, Nat.add_assoc a', Nat.add_assoc a, Nat.add_assoc a', Nat.add_assoc a,
    readDataTypes_moved hmove (by omega), readNodes_moved hmove (by omega),
    Memory.read_moved hmove (by omega)]

theorem Meta.IsImage.unpackMeta {m : Meta} {bytes : List UInt8} (h : m.IsImage bytes)
    (hm : m.Packable) {mem : Memory} {a n : ℕ} (hread : mem.read a n = bytes) :
    unpackMeta mem a n = some m.restored := by
  have hlen := h.length
  rw [← hread, Memory.length_read] at hlen
  obtain ⟨mem₀, a₀, himage⟩ := h
  subst hlen
  refine unpackMeta_moved (hread.trans himage.symm) (unpackMeta_packMeta hm mem₀ a₀) ?_
  unfold getPackMetaLen Meta.restored
  dsimp only
  split_ifs
  · rw [List.length_nil]
    omega
  · exact Nat.le_refl _

end Ps
