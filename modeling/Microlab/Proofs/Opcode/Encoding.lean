import Microlab.Proofs.Opcode.Binding

/-!
# Encoded bytes

A selection is encoded exactly if its fields hold their numbers. Its bytes are the
head of the opcode and the stored fields in template order, as many as the opcode
declares.
-/

namespace Microlab

/-! ## Fields -/

theorem fits_iff (bits : Nat) (v : Int) :
    fits bits v = true ↔ -(2 ^ (bits - 1) : Int) ≤ v ∧ v ≤ 2 ^ bits - 1 := by
  unfold fits
  rw [decide_eq_true_eq, Nat.one_shiftLeft, Nat.one_shiftLeft]
  push_cast
  omega

/-- The bytes that a field stores for a number. -/
def stored (order : ByteOrder) : Width → Int → List Byte
  | .byte, v => [BitVec.ofInt 8 v]
  | .word, v => order.split (BitVec.ofInt 16 v)

theorem length_stored (order : ByteOrder) (w : Width) (v : Int) :
    (stored order w v).length = w.bytes := by
  cases w with
  | byte => rfl
  | word => cases order <;> rfl

theorem encodeField_of_fits {order : ByteOrder} {w : Width} {v : Int}
    (h : fits w.bits v = true) : encodeField order w v = .ok (stored order w v) := by
  unfold encodeField
  rw [if_pos h]
  cases w <;> rfl

theorem encodeField_of_not_fits {order : ByteOrder} {w : Width} {v : Int}
    (h : fits w.bits v = false) :
    encodeField order w v = .error (.immediateOverflow v w.bits) := by
  unfold encodeField
  rw [if_neg (by simp [h])]

theorem mapM_encodeField_of_fits {order : ByteOrder} {fields : List (Width × Int)}
    (h : ∀ f ∈ fields, fits f.1.bits f.2 = true) :
    (fields.mapM fun f => encodeField order f.1 f.2)
      = .ok (fields.map fun f => stored order f.1 f.2) := by
  induction fields with
  | nil => rfl
  | cons f rest ih =>
      rw [List.mapM_cons, encodeField_of_fits (h f List.mem_cons_self),
        ih fun g hg => h g (List.mem_cons_of_mem _ hg)]
      rfl

/-- The first number that its field does not hold is the one reported. -/
theorem mapM_encodeField_of_not_fits (order : ByteOrder) {fields : List (Width × Int)}
    (h : ¬ ∀ f ∈ fields, fits f.1.bits f.2 = true) :
    ∃ f ∈ fields, fits f.1.bits f.2 = false ∧
      (fields.mapM fun f => encodeField order f.1 f.2)
        = .error (.immediateOverflow f.2 f.1.bits) := by
  induction fields with
  | nil => simp at h
  | cons f rest ih =>
      by_cases hf : fits f.1.bits f.2 = true
      · have hrest : ¬ ∀ g ∈ rest, fits g.1.bits g.2 = true := by
          intro hall
          apply h
          intro g hg
          rcases List.mem_cons.mp hg with rfl | hg
          · exact hf
          · exact hall g hg
        obtain ⟨g, hg, hgfit, herr⟩ := ih hrest
        refine ⟨g, List.mem_cons_of_mem _ hg, hgfit, ?_⟩
        rw [List.mapM_cons, encodeField_of_fits hf, herr]
        rfl
      · have hf : fits f.1.bits f.2 = false := by simpa using hf
        refine ⟨f, List.mem_cons_self, hf, ?_⟩
        rw [List.mapM_cons, encodeField_of_not_fits hf]
        rfl

/-- The fields of a template with the numbers bound to them. -/
def Pattern.fieldsOf : List Pattern → List Binding → List (Width × Int)
  | field f :: ps, .value v :: bs => (f.width, v) :: fieldsOf ps bs
  | _ :: ps, _ :: bs => fieldsOf ps bs
  | _, _ => []

/-- The registers among bindings, in their order. -/
def Binding.registersOf (bs : List Binding) : List (BitVec 3) :=
  bs.filterMap fun
    | .register r => some r
    | _ => none

/-- How many registers a template names. -/
def Opcode.registerCount (o : Opcode) : Nat := o.operands.countP Pattern.isRegister

/-- How many registers the bytes of a form have room for. -/
def Form.places : Form → Nat
  | plain => 1
  | registerPair => 2
  | extension _ => 1

/-- The template names as many registers as the form has places for, or none if the opcode is
plain, and the declared length is that of the bytes and fields. -/
structure Opcode.Regular (o : Opcode) : Prop where
  registers : o.registerCount = o.form.places ∨ (o.form = .plain ∧ o.registerCount = 0)
  length : o.length = o.computedLength

instance (o : Opcode) : Decidable o.Regular :=
  decidable_of_iff (_ ∧ _) ⟨fun h => ⟨h.1, h.2⟩, fun h => ⟨h.registers, h.length⟩⟩

theorem Arch.regular_of_mem {arch : Arch} {o : Opcode} (h : o ∈ arch.opcodes) : o.Regular := by
  have hall : ∀ o ∈ arch.opcodes, o.Regular := by
    cases arch <;> decide +kernel
  exact hall o h

namespace Selection

/-- The bindings are of the kinds that the template asks for. -/
def IsBound (s : Selection) : Prop := List.Forall₂ Pattern.Takes s.opcode.operands s.bound

theorem registers_eq (s : Selection) : s.registers = Binding.registersOf s.bound := rfl

theorem fields_eq (s : Selection) : s.fields = Pattern.fieldsOf s.opcode.operands s.bound := by
  unfold fields
  generalize s.opcode.operands = ps
  generalize s.bound = bs
  induction ps generalizing bs with
  | nil => rfl
  | cons p ps ih =>
      cases bs with
      | nil => cases p <;> rfl
      | cons b bs =>
          rw [List.zip_cons_cons, List.filterMap_cons, ih bs]
          cases p <;> cases b <;> rfl

theorem fits_iff_forall (s : Selection) :
    s.fits = true ↔ ∀ f ∈ s.fields, Microlab.fits f.1.bits f.2 = true := by
  unfold Selection.fits
  rw [List.all_eq_true]

/-- The bytes of a selection whose fields hold their numbers. -/
def code (order : ByteOrder) (s : Selection) : List Byte :=
  s.opcode.head s.registers ++ (s.fields.map fun f => stored order f.1 f.2).flatten

theorem encode_of_fits {s : Selection} (order : ByteOrder) (h : s.fits = true) :
    s.encode order = .ok (s.code order) := by
  unfold encode
  show ((s.fields.mapM fun f => encodeField order f.1 f.2) >>= _) = _
  rw [mapM_encodeField_of_fits ((fits_iff_forall s).mp h)]
  rfl

theorem encode_of_not_fits {s : Selection} (order : ByteOrder) (h : s.fits = false) :
    ∃ f ∈ s.fields, Microlab.fits f.1.bits f.2 = false ∧
      s.encode order = .error (.immediateOverflow f.2 f.1.bits) := by
  have hnot : ¬ ∀ f ∈ s.fields, Microlab.fits f.1.bits f.2 = true := by
    rw [← fits_iff_forall, h]
    decide
  obtain ⟨f, hf, hfit, herr⟩ := mapM_encodeField_of_not_fits order hnot
  refine ⟨f, hf, hfit, ?_⟩
  unfold encode
  show ((s.fields.mapM fun f => encodeField order f.1 f.2) >>= _) = _
  rw [herr]
  rfl

theorem encode_eq_ok_iff {s : Selection} {order : ByteOrder} {bytes : List Byte} :
    s.encode order = .ok bytes ↔ s.fits = true ∧ s.code order = bytes := by
  cases hfit : s.fits with
  | true =>
      rw [encode_of_fits order hfit]
      simp
  | false =>
      obtain ⟨f, -, -, herr⟩ := encode_of_not_fits order hfit
      rw [herr]
      simp

/-! ## Lengths -/

theorem length_head (o : Opcode) (rs : List (BitVec 3)) :
    (o.head rs).length = o.bytes.length + if o.form = .plain then 0 else 1 := by
  unfold Opcode.head
  split
  · next h => simp [h, Opcode.bytes]
  · next h => simp [h]
  · next h => simp [h]

theorem length_fieldsOf {ps : List Pattern} {bs : List Binding} (order : ByteOrder)
    (h : List.Forall₂ Pattern.Takes ps bs) :
    ((Pattern.fieldsOf ps bs).map fun f => stored order f.1 f.2).flatten.length
      = ps.foldr (fun p size => p.size + size) 0 := by
  induction h with
  | nil => rfl
  | @cons p b ps bs hp _ ih =>
      rw [List.foldr_cons, ← ih]
      match p, b, hp with
      | .exact _, .fixed, _ => simp [Pattern.fieldsOf, Pattern.size]
      | .register _, .register _, _ => simp [Pattern.fieldsOf, Pattern.size]
      | .field f, .value v, _ =>
          simp only [Pattern.fieldsOf, List.map_cons, List.flatten_cons, List.length_append,
            length_stored]
          rfl

theorem length_code {s : Selection} (order : ByteOrder) (hreg : s.opcode.Regular)
    (h : s.IsBound) : (s.code order).length = s.opcode.length := by
  rw [hreg.length]
  unfold code Opcode.computedLength
  rw [List.length_append, length_head, fields_eq, length_fieldsOf order h]
  rfl

theorem length_registersOf {ps : List Pattern} {bs : List Binding}
    (h : List.Forall₂ Pattern.Takes ps bs) :
    (Binding.registersOf bs).length = ps.countP Pattern.isRegister := by
  induction h with
  | nil => rfl
  | @cons p b ps bs hp _ ih =>
      rw [List.countP_cons, ← ih]
      match p, b, hp with
      | .exact _, .fixed, _ => simp [Binding.registersOf, Pattern.isRegister]
      | .register _, .register _, _ => simp [Binding.registersOf, Pattern.isRegister]
      | .field _, .value _, _ => simp [Binding.registersOf, Pattern.isRegister]

end Selection

end Microlab
