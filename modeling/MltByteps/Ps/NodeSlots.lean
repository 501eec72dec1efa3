import MltByteps.Ps.MetaCodec

/-! The slots of the nodes in a packed `Meta`. A hostname is copied with its own length into a
slot of 64 bytes, between the members of a node that are written before it and after it. -/

namespace Ps

/-- The members of `RawNode`. -/
inductive NodeField where
  | role
  | id
  | hostname
  | port
  | isRecovery
  | customerId
deriving DecidableEq, Repr

namespace NodeField

def offset : NodeField → ℕ
  | .role => 0
  | .id => 4
  | .hostname => 8
  | .port => 72
  | .isRecovery => 76
  | .customerId => 80

def size : NodeField → ℕ
  | .hostname => 64
  | .isRecovery => 1
  | _ => 4

theorem offset_add_size_le (f : NodeField) : f.offset + f.size ≤ rawNodeSize := by
  cases f <;> decide

theorem eq_of_mem {f g : NodeField} {o : ℕ} (hf : f.offset ≤ o ∧ o < f.offset + f.size)
    (hg : g.offset ≤ o ∧ o < g.offset + g.size) : f = g := by
  cases f <;> cases g <;> first | rfl | (simp only [offset, size] at hf hg; omega)

end NodeField

/-- The writes of one round of the loop of `PackMeta` over the nodes, in order. -/
def nodeWrites (n : Node) : List (NodeField × List UInt8) :=
  [(.id, intBytes n.id), (.role, intBytes n.role.toInt), (.port, intBytes n.port),
    (.hostname, List.replicate 64 0), (.hostname, n.hostname),
    (.isRecovery, [boolByte n.isRecovery]), (.customerId, intBytes n.customerId)]

theorem packNode_eq_writes (n : Node) (mem : Memory) (p : ℕ) : packNode n mem p =
    (nodeWrites n).foldl (fun mem w => mem.write (p + w.1.offset) w.2) mem := rfl

/-- Where a member of node `i` starts in the buffer. -/
def fieldStart (m : Meta) (i : ℕ) (f : NodeField) : ℕ :=
  nodeOffset m + i * rawNodeSize + f.offset

/-- The write for node `i` stays in the buffer and behind the header, the body and the data
types, and it touches no member of a node but the one it is for. -/
def Confined (m : Meta) (i : ℕ) (w : NodeField × List UInt8) : Prop :=
  ∀ x, fieldStart m i w.1 ≤ x → x < fieldStart m i w.1 + w.2.length →
    nodeOffset m ≤ x ∧ x < getPackMetaLen m ∧
      ∀ j f, j < m.control.node.length → fieldStart m j f ≤ x → x < fieldStart m j f + f.size →
        j = i ∧ f = w.1

def WritesConfined (m : Meta) : Prop :=
  ∀ (i : ℕ) (n : Node), m.control.node[i]? = some n → ∀ w ∈ nodeWrites n, Confined m i w

variable {m : Meta} {i : ℕ} {n : Node} {w : NodeField × List UInt8}

theorem confined_of_length_le (hi : i < m.control.node.length) (hw : w.2.length ≤ w.1.size) :
    Confined m i w := by
  intro x hlo hhi
  have hsize := w.1.offset_add_size_le
  have hlen : getPackMetaLen m = nodeOffset m + m.control.node.length * rawNodeSize := rfl
  unfold fieldStart at hlo hhi ⊢
  unfold rawNodeSize at *
  refine ⟨by omega, by omega, fun j f _ hlo' hhi' => ?_⟩
  have hf := f.offset_add_size_le
  unfold rawNodeSize at hf
  obtain rfl : j = i := by omega
  refine ⟨rfl, NodeField.eq_of_mem (o := x - (nodeOffset m + j * 84)) ⟨?_, ?_⟩ ⟨?_, ?_⟩⟩ <;> omega

theorem nodeWrites_length_le (hhost : n.hostname.length ≤ 64) (hw : w ∈ nodeWrites n) :
    w.2.length ≤ w.1.size := by
  have hlen := length_intBytes
  simp only [nodeWrites, List.mem_cons, List.not_mem_nil, or_false] at hw
  rcases hw with rfl | rfl | rfl | rfl | rfl | rfl | rfl
  · exact (hlen _).le
  · exact (hlen _).le
  · exact (hlen _).le
  · exact (List.length_replicate).le
  · exact hhost
  · exact le_rfl
  · exact (hlen _).le

theorem writesConfined_iff :
    WritesConfined m ↔ ∀ n ∈ m.control.node, n.hostname.length ≤ 64 := by
  constructor
  · intro h n hn
    obtain ⟨i, hi⟩ := List.mem_iff_getElem?.mp hn
    have hlt := (List.getElem?_eq_some_iff.mp hi).1
    by_contra hlong
    -- The byte behind the slot is the first one of the port.
    have hhost := h i n hi (.hostname, n.hostname) (by simp [nodeWrites])
      (fieldStart m i .hostname + 64) (by dsimp only; omega) (by dsimp only; omega)
    have hport : fieldStart m i .port = fieldStart m i .hostname + 64 := rfl
    have heq := (hhost.2.2 i .port hlt hport.le
      (hport ▸ Nat.lt_add_of_pos_right (by decide))).2
    exact NodeField.noConfusion heq
  · intro h i n hi w hw
    have hlt := (List.getElem?_eq_some_iff.mp hi).1
    exact confined_of_length_le hlt (nodeWrites_length_le (h n (List.mem_of_getElem? hi)) hw)

/-! ## Decoding -/

def Node.bare (n : Node) : Node := { n with hostname := [] }

def DecodesNodes (m : Meta) (mem : Memory) (a : ℕ) : Prop :=
  ∃ m', unpackMeta (packMeta m mem a) a (getPackMetaLen m) = some m' ∧
    m'.control.node.map Node.bare = m.control.node.map Node.bare

theorem readNodes_bare {nodes : List Node} {mem : Memory} {p : ℕ} (stop : ℕ)
    (hnodes : ∀ n ∈ nodes, n.Typed) (hhost : ∀ n ∈ nodes, n.hostname.length ≤ 64) :
    ∃ nodes', readNodes (packNodes nodes mem p) stop nodes.length p = some nodes' ∧
      nodes'.map Node.bare = nodes.map Node.bare := by
  induction nodes generalizing mem p with
  | nil => exact ⟨[], rfl, rfl⟩
  | cons n nodes ih =>
    have hrest : ∀ n ∈ nodes, n.hostname.length ≤ 64 :=
      fun n hn => hhost n (List.mem_cons_of_mem _ hn)
    -- The later nodes lie behind this one.
    have hholds : HoldsFields (packNodes (n :: nodes) mem p) p n :=
      (packNode_fields (hhost n List.mem_cons_self) mem p).congr
        fun x _ hx => packNodes_outside hrest (.inl hx)
    obtain ⟨nodes', hread, hbare⟩ := @ih (packNode n mem p) (p + rawNodeSize)
      (fun n hn => hnodes n (List.mem_cons_of_mem _ hn)) hrest
    refine ⟨{ n with hostname := cString (packNodes (n :: nodes) mem p) (p + 8) stop } :: nodes',
      ?_, ?_⟩
    · rw [List.length_cons, readNodes, hholds.readNode (hnodes n List.mem_cons_self), packNodes,
        hread]
      rfl
    · rw [List.map_cons, List.map_cons, hbare]
      rfl

theorem decodesNodes (h : m.Typed) (hcmd : m.control.cmd ≠ .empty)
    (hhost : ∀ n ∈ m.control.node, n.hostname.length ≤ 64) (mem : Memory) (a : ℕ) :
    DecodesNodes m mem a := by
  obtain ⟨nodes, hread, hbare⟩ := @readNodes_bare m.control.node (mem.write a (frontBytes m))
    (a + nodeOffset m) (a + getPackMetaLen m) h.nodes hhost
  refine ⟨{ m.restored with control := { m.restored.control with node := nodes } }, ?_, hbare⟩
  rw [unpackMeta_front h hhost, if_neg hcmd, packMeta_eq, if_neg hcmd, hread]
  rfl

/-- The writes for each node stay in their slots, and so the other members survive, if and only
if no hostname is longer than its slot. -/
theorem node_writes_confined_iff {m : Meta} (h : m.Typed) (hcmd : m.control.cmd ≠ .empty) :
    (WritesConfined m ∧ ∀ mem a, DecodesNodes m mem a) ↔
      ∀ n ∈ m.control.node, n.hostname.length ≤ 64 := by
  rw [writesConfined_iff]
  exact ⟨And.left, fun hhost => ⟨hhost, decodesNodes h hcmd hhost⟩⟩

def nodesWith (hostname : List UInt8) : Meta :=
  { head := 1, appId := 2, timestamp := 3, customerId := 4
    control := { cmd := .addNode, node := [{ role := .worker, id := 9, port := 1234, hostname },
      { role := .server, id := 8, port := 1235, isRecovery := true, customerId := 3 }] } }

theorem typed_nodesWith (hostname : List UInt8) : (nodesWith hostname).Typed := by
  have hnode : ∀ id port customerId : ℤ, IsInt id → IsInt port → IsInt customerId →
      ∀ role isRecovery hostname, Node.Typed ⟨role, id, customerId, hostname, port, isRecovery⟩ :=
    fun _ _ _ hid hport hcustomer _ _ _ => ⟨hid, hport, hcustomer⟩
  have hnodes : ∀ n ∈ (nodesWith hostname).control.node, n.Typed := by
    intro n hn
    rcases List.mem_cons.mp hn with rfl | hn
    · exact hnode 9 1234 0 (by decide) (by decide) (by decide) _ _ _
    · rw [List.mem_singleton.mp hn]
      exact hnode 8 1235 3 (by decide) (by decide) (by decide) _ _ _
  exact ⟨show IsInt 1 by decide, show IsInt 2 by decide, show IsInt 4 by decide,
    show IsInt 3 by decide, show IsInt 0 by decide, show 0 < 2 ^ 64 by decide,
    show IsInt 0 by decide, show 0 < 2 ^ 64 by decide, show 0 < 2 ^ 64 by decide,
    show IsInt 0 by decide, show IsInt 0 by decide, hnodes, show 256 < 2 ^ 31 by decide⟩

theorem node_writes_confined_iff_full :
    (nodesWith (List.replicate 64 97)).Typed ∧ WritesConfined (nodesWith (List.replicate 64 97)) ∧
      DecodesNodes (nodesWith (List.replicate 64 97)) (fun _ => 0) 0 := by
  have h := typed_nodesWith (List.replicate 64 97)
  obtain ⟨hwrites, hnodes⟩ := (node_writes_confined_iff h (by decide)).mpr (by decide)
  exact ⟨h, hwrites, hnodes _ _⟩

/-- A hostname of 66 bytes: the other end takes two bytes of it for a part of the port. -/
theorem long_hostname_changes_port :
    (nodesWith (List.replicate 66 97)).Typed ∧
      (unpackMeta (packMeta (nodesWith (List.replicate 66 97)) (fun _ => 0) 0) 0
        (getPackMetaLen (nodesWith (List.replicate 66 97)))).map
          (fun m => m.control.node.map Node.port) = some [24929, 1235] :=
  ⟨typed_nodesWith _, by decide +kernel⟩

end Ps
