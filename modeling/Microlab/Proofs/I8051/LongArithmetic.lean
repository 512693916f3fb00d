import Microlab.Proofs.I8051.Operation
import Microlab.Proofs.I8051.Sum
import Microlab.Proofs.Memory
import Microlab.Proofs.Session.Walk
import Mathlib.Data.Nat.Digits.Defs
import Mathlib.Tactic.LinearCombination
import Mathlib.Tactic.Linarith

/-!
# Arithmetic on long numbers

Numbers of any length are added and subtracted byte by byte, the lowest byte first, with
the carry flag between one byte and the next. Loading the accumulator, storing it and
moving the pointer on keep the flag, so the bytes stored and the last carry are exactly
those of the whole numbers.
-/

namespace Microlab.I8051

open Text

/-! ## Numbers in base 256 -/

/-- The number with the given digits, the lowest first. -/
def number (bytes : List Byte) : Nat := Nat.ofDigits 256 (bytes.map BitVec.toNat)

/-- A digit of a number, the lowest one having index zero. -/
def digit (v i : Nat) : Byte := BitVec.ofNat 8 (v / 256 ^ i)

theorem number_cons (b : Byte) (bytes : List Byte) :
    number (b :: bytes) = b.toNat + 256 * number bytes := by
  unfold number
  rw [List.map_cons, Nat.ofDigits_cons]

theorem number_lt (bytes : List Byte) : number bytes < 256 ^ bytes.length := by
  induction bytes with
  | nil => decide
  | cons b bytes ih =>
      have hb := b.isLt
      rw [number_cons, List.length_cons, Nat.pow_succ]
      omega

/-- Bytes are the digits of their number. -/
theorem digit_number {bytes : List Byte} {i : Nat} (hi : i < bytes.length) :
    digit (number bytes) i = bytes[i] := by
  unfold digit
  induction bytes generalizing i with
  | nil => simp at hi
  | cons b bytes ih =>
      have hb := b.isLt
      rw [number_cons]
      cases i with
      | zero =>
          apply BitVec.eq_of_toNat_eq
          rw [BitVec.toNat_ofNat, Nat.pow_zero, Nat.div_one, List.getElem_cons_zero]
          omega
      | succ i =>
          have htail : (b.toNat + 256 * number bytes) / 256 = number bytes := by omega
          rw [Nat.pow_succ', ← Nat.div_div_eq_div_mul, htail, List.getElem_cons_succ,
            ih (Nat.lt_of_succ_lt_succ hi)]

/-! ## Carries through all bytes -/

/-- The two operations that take a carry in. -/
inductive LongOperation where
  | add
  | subtract
  deriving DecidableEq, Repr

namespace LongOperation

variable (op : LongOperation)

def mnemonic : LongOperation → Mnemonic
  | add => .addc
  | subtract => .subb

def operation : LongOperation → Source → Operation
  | add => .add true
  | subtract => .subtract

def sum : LongOperation → Byte → Byte → Bool → Sum
  | add => .ofAdd
  | subtract => .ofSub

/-- Both are resolved as sums, under the name that their trace gives. -/
theorem exists_resolveSum (i : Instruction) :
    ∃ name, Operation.resolveKnown op.mnemonic i = Operation.resolveSum op.operation name i := by
  cases op with
  | add => exact ⟨i.mnemonic, rfl⟩
  | subtract => exact ⟨"SUBB", rfl⟩

/-- What the second number counts for. -/
def sign : LongOperation → Int
  | add => 1
  | subtract => -1

/-- The bytes of a long sum or difference, and the last carry. -/
def ripple (carry : Bool) : List Byte → List Byte → List Byte × Bool
  | x :: xs, y :: ys =>
    let s := op.sum x y carry
    let (rest, last) := ripple s.carry xs ys
    (s.value :: rest, last)
  | _, _ => ([], carry)

theorem ripple_cons (carry : Bool) (x y : Byte) (xs ys : List Byte) :
    op.ripple carry (x :: xs) (y :: ys) =
      ((op.sum x y carry).value :: (op.ripple (op.sum x y carry).carry xs ys).1,
        (op.ripple (op.sum x y carry).carry xs ys).2) :=
  rfl

theorem sum_exact (x y : Byte) (carry : Bool) :
    (x.toNat : Int) + op.sign * (y.toNat + carry.toNat)
      = (op.sum x y carry).value.toNat + op.sign * 256 * (op.sum x y carry).carry.toNat := by
  cases op with
  | add =>
      have h := Sum.ofAdd_exact x y carry
      simp only [sum, sign]
      omega
  | subtract =>
      have h := Sum.ofSub_exact x y carry
      simp only [sum, sign]
      omega

theorem length_ripple (carry : Bool) {x y : List Byte} (hlen : y.length = x.length) :
    (op.ripple carry x y).1.length = x.length := by
  induction x generalizing y carry with
  | nil => rfl
  | cons b x ih =>
      cases y with
      | nil => simp at hlen
      | cons c y =>
          have hlen : y.length = x.length := by simpa using hlen
          rw [ripple_cons, List.length_cons, List.length_cons, ih _ hlen]

/-- No carry is lost on the way: what the bytes lack is the last carry, above all of them. -/
theorem ripple_exact (carry : Bool) {x y : List Byte} (hlen : y.length = x.length) :
    (number x : Int) + op.sign * (number y + carry.toNat)
      = number (op.ripple carry x y).1
        + op.sign * 256 ^ x.length * (op.ripple carry x y).2.toNat := by
  induction x generalizing y carry with
  | nil =>
      obtain rfl := List.length_eq_zero_iff.mp hlen
      simp [ripple, number]
  | cons b x ih =>
      cases y with
      | nil => simp at hlen
      | cons c y =>
          have hlen : y.length = x.length := by simpa using hlen
          have hsum := op.sum_exact b c carry
          have hrest := ih (op.sum b c carry).carry hlen
          rw [ripple_cons, number_cons, number_cons, number_cons, List.length_cons]
          push_cast
          linear_combination hsum + 256 * hrest

theorem number_ripple_lt (carry : Bool) {x y : List Byte} (hlen : y.length = x.length) :
    number (op.ripple carry x y).1 < 256 ^ x.length := by
  rw [← op.length_ripple carry hlen]
  exact number_lt _

theorem ripple_add {x y : List Byte} (hlen : y.length = x.length) :
    number (add.ripple false x y).1 = (number x + number y) % 256 ^ x.length ∧
      (add.ripple false x y).2 = decide (256 ^ x.length ≤ number x + number y) := by
  have hexact := add.ripple_exact false hlen
  have hlt := add.number_ripple_lt false hlen
  have hpow : (256 : Int) ^ x.length = (256 ^ x.length : Nat) := by push_cast; rfl
  rw [hpow] at hexact
  generalize 256 ^ x.length = base at *
  simp only [sign, Bool.toNat_false] at hexact
  cases hc : (add.ripple false x y).2 with
  | false =>
      rw [hc, Bool.toNat_false] at hexact
      have hsum : number x + number y = number (add.ripple false x y).1 := by omega
      rw [hsum, Nat.mod_eq_of_lt hlt, false_eq_decide_iff]
      exact ⟨rfl, Nat.not_le_of_lt hlt⟩
  | true =>
      rw [hc, Bool.toNat_true] at hexact
      have hsum : number x + number y = number (add.ripple false x y).1 + base := by omega
      rw [hsum, Nat.add_mod_right, Nat.mod_eq_of_lt hlt, true_eq_decide_iff]
      exact ⟨rfl, Nat.le_add_left _ _⟩

theorem ripple_subtract {x y : List Byte} (hlen : y.length = x.length) :
    (number (subtract.ripple false x y).1 : Int)
        = ((number x : Int) - number y) % 256 ^ x.length ∧
      (subtract.ripple false x y).2 = decide (number x < number y) := by
  have hexact := subtract.ripple_exact false hlen
  have hlt := subtract.number_ripple_lt false hlen
  have hy := number_lt y
  have hpow : (256 : Int) ^ x.length = (256 ^ x.length : Nat) := by push_cast; rfl
  rw [hlen] at hy
  rw [hpow] at hexact ⊢
  generalize 256 ^ x.length = base at *
  simp only [sign, Bool.toNat_false] at hexact
  cases hc : (subtract.ripple false x y).2 with
  | false =>
      rw [hc, Bool.toNat_false] at hexact
      have hdiff : (number x : Int) - number y = number (subtract.ripple false x y).1 := by omega
      rw [hdiff, Int.emod_eq_of_lt (by omega) (by omega), false_eq_decide_iff]
      exact ⟨rfl, by omega⟩
  | true =>
      rw [hc, Bool.toNat_true] at hexact
      have hdiff : (number x : Int) - number y
          = number (subtract.ripple false x y).1 + base * (-1) := by omega
      rw [hdiff, Int.add_mul_emod_self_left, Int.emod_eq_of_lt (by omega) (by omega),
        true_eq_decide_iff]
      exact ⟨rfl, by omega⟩

/-! ## The program -/

/-- The instructions for one byte of each number: add or subtract, store, move on. -/
def column (x y : String) : List Instruction :=
  [⟨"MOV", ["A", x]⟩, ⟨op.mnemonic.name, ["A", y]⟩, ⟨"MOVX", ["@DPTR", "A"]⟩, ⟨"INC", ["DPTR"]⟩]

/-- The instructions for two numbers whose bytes are spelled by operands. -/
def program (xs ys : List String) : List Instruction :=
  ⟨"CLR", ["C"]⟩ :: (List.zipWith op.column xs ys).flatten

end LongOperation

/-- The operand is the byte as a marked hexadecimal literal, in digits of either letter
case and with any zeros in front. -/
def SpellsByte (operand : String) (b : Byte) : Prop :=
  ∃ ds, operand.toList = '#' :: '0' :: 'x' :: ds ∧ Literal.digits? 16 ds = some b.toNat

theorem SpellsByte.bind? {operand : String} {b : Byte} (h : SpellsByte operand b) :
    Field.markedImm8.bind? .i8051 operand = some (b.toNat : Int) := by
  obtain ⟨ds, hoperand, hds⟩ := h
  have htrim : trim operand.toList = '#' :: '0' :: 'x' :: ds := by
    have hhex := Literal.isWord_hex hds
    have hword : IsWord operand.toList := by
      rw [hoperand]
      exact ⟨List.cons_ne_nil _ _, List.forall_mem_cons.mpr ⟨by decide, hhex.2⟩⟩
    rw [hword.trim_eq, hoperand]
  have hmarked : isMarked operand = true := by simp [isMarked, htrim]
  have hlt : b.toNat < 2 ^ 63 := Nat.lt_trans b.isLt (by decide)
  rw [Field.bind?_eq, if_pos hmarked, if_neg (by decide)]
  unfold Arch.literal? Literal.parseOperand?
  rw [Literal.unmarked_of_hash htrim, Literal.parse?_hex hds _ String.toList_ofList hlt]

namespace Operation

variable {i : Instruction} {d s : String}

theorem asked_resolveMove {r : Register} (hargs : i.arguments = [d, s])
    (hd : Register.ofName? d = some r) (hs : s.toList.head? ≠ some '@') :
    asked (resolveMove i) = some (.move r (.ofOperand s)) := by
  refine Instruction.two_bind_eq_some_iff.mpr ⟨d, s, hargs, ?_⟩
  refine lookup_bind_eq_some_iff.mpr ⟨r, hd, ?_⟩
  rw [if_neg hs]
  rfl

theorem asked_resolveSum (op : Source → Operation) (name : String)
    (hargs : i.arguments = [d, s]) (hd : Register.ofName? d = some .a) :
    asked (resolveSum op name i) = some (op (.ofOperand s)) := by
  refine Instruction.two_bind_eq_some_iff.mpr ⟨d, s, hargs, ?_⟩
  simp only [if_pos hd]
  rfl

end Operation

namespace Machine

variable {m : Machine}

/-- The machine after instructions that are executed one after the other. -/
def after (m : Machine) (code : List Instruction) : Machine :=
  (Cpu.executeAll (a := .i8051) m code).1

theorem execute_of_asked {i : Instruction} {op : Operation}
    (h : asked (Operation.resolve i) = some op) :
    (m.execute i).1 = (m.apply op).1 := by
  rw [execute_fst, h, Option.elim_some]

/-! ## What each instruction does -/

theorem apply_operation (op : LongOperation) (b : Byte) :
    (m.apply (op.operation (.literal (BitVec.setWidth 16 b)))).1
      = (m.sum (op.sum m.a b m.psw.carry)).1 := by
  have hlow : Word.low (BitVec.setWidth 16 b) = b := Word.low_setWidth b
  cases op with
  | add =>
      show (m.sum (.ofAdd m.a (Word.low (BitVec.setWidth 16 b)) (true && m.psw.carry))).1 = _
      rw [hlow, Bool.true_and]
      rfl
  | subtract =>
      show (m.sum (.ofSub m.a (Word.low (BitVec.setWidth 16 b)) m.psw.carry)).1 = _
      rw [hlow]
      rfl

section

variable {x : String} {b : Byte} (h : SpellsByte x b)

include h

theorem source_of_spellsByte :
    Source.ofOperand (trimmed x) = .literal (BitVec.setWidth 16 b) := by
  rw [Source.ofOperand_of_field h.bind?]
  congr 1
  apply BitVec.eq_of_toNat_eq
  rw [BitVec.toNat_ofInt, BitVec.toNat_setWidth]
  omega

theorem execute_move : (m.execute ⟨"MOV", ["A", x]⟩).1 = m.setA b := by
  have hmov : Mnemonic.ofName? "MOV" = some .mov := by decide +kernel
  have hdest : Register.ofName? (trimmed "A") = some .a := by decide +kernel
  have hnames : Instruction.Names ⟨"MOV", ["A", x]⟩ .mov := Instruction.ofName?_eq_some_iff.mp hmov
  have hasked : asked (Operation.resolve ⟨"MOV", ["A", x]⟩)
      = some (.move .a (.literal (BitVec.setWidth 16 b))) := by
    rw [Operation.resolve, resolveBy_of_names hnames]
    show asked (Operation.resolveMove _) = _
    rw [Operation.asked_resolveMove rfl hdest (head?_ne_at_of_field h.bind?),
      source_of_spellsByte h]
  rw [execute_of_asked hasked]
  show m.setA (Word.low ((Word.low (BitVec.setWidth 16 b)).setWidth 16)) = _
  rw [Word.low_setWidth, Word.low_setWidth]

theorem execute_sum (op : LongOperation) :
    (m.execute ⟨op.mnemonic.name, ["A", x]⟩).1 = (m.sum (op.sum m.a b m.psw.carry)).1 := by
  have hdest : Register.ofName? (trimmed "A") = some .a := by decide +kernel
  have hasked : asked (Operation.resolve ⟨op.mnemonic.name, ["A", x]⟩)
      = some (op.operation (.literal (BitVec.setWidth 16 b))) := by
    have hnames : Instruction.Names ⟨op.mnemonic.name, ["A", x]⟩ op.mnemonic :=
      Instruction.ofName?_eq_some_iff.mp (Mnemonic.ofName?_name op.mnemonic)
    obtain ⟨name, hname⟩ := op.exists_resolveSum ⟨op.mnemonic.name, ["A", x]⟩
    rw [Operation.resolve, resolveBy_of_names hnames, hname,
      Operation.asked_resolveSum _ _ rfl hdest, source_of_spellsByte h]
  rw [execute_of_asked hasked, apply_operation]

end

theorem execute_store :
    (m.execute ⟨"MOVX", ["@DPTR", "A"]⟩).1
      = { m with memory := m.memory.write (m.dptr.setWidth 32) m.a } := by
  have hasked : asked (Operation.resolve ⟨"MOVX", ["@DPTR", "A"]⟩)
      = some (.store .dptr (.register .a)) := by decide +kernel
  rw [execute_of_asked hasked]
  show { m with memory := m.memory.write _ (Word.low (m.a.setWidth 16)) } = _
  rw [Word.low_setWidth]
  rfl

theorem execute_advance :
    (m.execute ⟨"INC", ["DPTR"]⟩).1 = { m with dptr := m.dptr + 1 } := by
  have hasked : asked (Operation.resolve ⟨"INC", ["DPTR"]⟩)
      = some (.increment .dptr) := by decide +kernel
  rw [execute_of_asked hasked]
  rfl

theorem execute_clearCarry : (m.execute ⟨"CLR", ["C"]⟩).1 = m.withCarry false := by
  have hasked : asked (Operation.resolve ⟨"CLR", ["C"]⟩)
      = some .clearCarry := by decide +kernel
  rw [execute_of_asked hasked]
  rfl

/-! ## Columns -/

/-- One column stores a byte of the result and leaves its carry. -/
theorem after_column (op : LongOperation) {x y : String} {b c : Byte} (hx : SpellsByte x b)
    (hy : SpellsByte y c) :
    m.after (op.column x y) =
      { (m.setA b).sum (op.sum b c m.psw.carry) |>.1 with
        memory := m.memory.write (m.dptr.setWidth 32) (op.sum b c m.psw.carry).value
        dptr := m.dptr + 1 } := by
  calc m.after (op.column x y)
      = ((((m.execute ⟨"MOV", ["A", x]⟩).1.execute ⟨op.mnemonic.name, ["A", y]⟩).1.execute
          ⟨"MOVX", ["@DPTR", "A"]⟩).1.execute ⟨"INC", ["DPTR"]⟩).1 := rfl
    _ = _ := by
        rw [execute_move hx, execute_sum hy, execute_store, execute_advance]
        rfl

/-- The columns store all bytes of the result and leave the last carry. -/
theorem after_columns (op : LongOperation) {xs ys : List String} {x y : List Byte}
    (hx : List.Forall₂ SpellsByte xs x) (hy : List.Forall₂ SpellsByte ys y)
    (hlen : y.length = x.length) :
    (m.after (List.zipWith op.column xs ys).flatten).memory
        = m.memory.load (m.dptr.setWidth 32) (op.ripple m.psw.carry x y).1 ∧
      (m.after (List.zipWith op.column xs ys).flatten).psw.carry
        = (op.ripple m.psw.carry x y).2 := by
  induction hx generalizing m ys y with
  | nil => exact ⟨rfl, rfl⟩
  | cons hb hx ih =>
      cases hy with
      | nil => simp at hlen
      | cons hc hy =>
          have hlen := Nat.succ.inj hlen
          -- the pointer wraps where the memory does
          have hnext : ((m.dptr + 1).setWidth 32).setWidth 16
              = (m.dptr.setWidth 32 + 1 : Address).setWidth 16 := by
            rw [BitVec.setWidth_add (m.dptr.setWidth 32) 1 (by decide)]
            simp
          have happend (code rest : List Instruction) :
              m.after (code ++ rest) = (m.after code).after rest :=
            Cpu.executeAll_append (a := .i8051) m code rest
          rw [List.zipWith_cons_cons, List.flatten_cons, happend, after_column op hb hc]
          obtain ⟨hmemory, hcarry⟩ := ih hy hlen
          refine ⟨?_, ?_⟩
          · rw [hmemory]
            exact Memory.load_congr _ (by decide) hnext _
          · exact hcarry

/-! ## The whole program -/

/-- The second machine holds the `n` lowest digits of a number where the pointer of the first
one points, has the carry, and has all other bytes as they were. The pointer wraps. -/
structure Stores (m m' : Machine) (n v : Nat) (carry : Bool) : Prop where
  digits : ∀ i < n, m'.memory.read ((m.dptr + BitVec.ofNat 16 i).setWidth 32) = digit v i
  carry : m'.psw.carry = carry
  frame : ∀ address : Address, (∀ i < n, address.setWidth 16 ≠ m.dptr + BitVec.ofNat 16 i) →
    m'.memory.read address = m.memory.read address

theorem setWidth_pointer_add (w : Word) (i : Nat) :
    (w.setWidth 32 + BitVec.ofNat 32 i : Address).setWidth 16 = w + BitVec.ofNat 16 i := by
  rw [BitVec.setWidth_add _ _ (by decide), BitVec.setWidth_setWidth_of_le _ (by decide),
    BitVec.setWidth_eq, BitVec.setWidth_ofNat_of_le (by decide)]

/-- What the program stores is the result that ripples through the columns. -/
theorem stores_program (m : Machine) (op : LongOperation) {xs ys : List String}
    {x y : List Byte} (hx : List.Forall₂ SpellsByte xs x) (hy : List.Forall₂ SpellsByte ys y)
    (hlen : y.length = x.length) (hsize : x.length ≤ 2 ^ 16) :
    Stores m (m.after (op.program xs ys)) x.length (number (op.ripple false x y).1)
      (op.ripple false x y).2 := by
  have hripple := op.length_ripple false hlen
  obtain ⟨hmemory, hcarry⟩ := after_columns (m := m.withCarry false) op hx hy hlen
  have hfirst : m.after (op.program xs ys)
      = (m.withCarry false).after (List.zipWith op.column xs ys).flatten := by
    rw [← execute_clearCarry]
    rfl
  have hmemory : (m.after (op.program xs ys)).memory
      = m.memory.load (m.dptr.setWidth 32) (op.ripple false x y).1 := by
    rw [hfirst]
    exact hmemory
  refine ⟨?_, ?_, ?_⟩
  · intro i hi
    have hi : i < (op.ripple false x y).1.length := by omega
    have haddress : ((m.dptr + BitVec.ofNat 16 i).setWidth 32 : Address).setWidth 16
        = (m.dptr.setWidth 32 + BitVec.ofNat 32 i : Address).setWidth 16 := by
      rw [setWidth_pointer_add, BitVec.setWidth_setWidth_of_le _ (by decide), BitVec.setWidth_eq]
    rw [hmemory, Memory.read_congr _ haddress,
      Memory.read_load _ (by decide) _ (by omega) hi, digit_number hi]
  · rw [hfirst]
    exact hcarry
  · intro address haddress
    rw [hmemory]
    apply Memory.read_load_of_ne
    intro i hi
    rw [setWidth_pointer_add]
    exact fun h => haddress i (by omega) h.symm

/-- **Long sums and differences are exact.** From any state, on numbers of up to `2 ^ 16`
bytes, the program stores the result modulo the power of 256 that has as many digits, and
the carry flag says whether the sum is at least that power, or the difference negative. -/
theorem after_program (m : Machine) {xs ys : List String} {x y : List Byte}
    (hx : List.Forall₂ SpellsByte xs x) (hy : List.Forall₂ SpellsByte ys y)
    (hlen : y.length = x.length) (hsize : x.length ≤ 2 ^ 16) :
    Stores m (m.after (LongOperation.add.program xs ys)) x.length
        ((number x + number y) % 256 ^ x.length)
        (decide (256 ^ x.length ≤ number x + number y)) ∧
      Stores m (m.after (LongOperation.subtract.program xs ys)) x.length
        (((number x : Int) - number y) % 256 ^ x.length).toNat
        (decide (number x < number y)) := by
  obtain ⟨hsum, hcarry⟩ := LongOperation.ripple_add hlen
  obtain ⟨hdiff, hborrow⟩ := LongOperation.ripple_subtract hlen
  constructor
  · rw [← hsum, ← hcarry]
    exact stores_program m .add hx hy hlen hsize
  · rw [← hdiff, ← hborrow, Int.toNat_natCast]
    exact stores_program m .subtract hx hy hlen hsize

/-- The pointer wraps between the two bytes. -/
theorem after_program_wrapped :
    Stores { initial with dptr := 0xFFFF }
        (after { initial with dptr := 0xFFFF }
          (LongOperation.add.program ["#0xFF", "#0x1"] ["#0x01", "#0xff"])) 2 256 true ∧
      Stores { initial with dptr := 0xFFFF }
        (after { initial with dptr := 0xFFFF }
          (LongOperation.subtract.program ["#0xFF", "#0x1"] ["#0x01", "#0xff"])) 2 766 true := by
  have hx : List.Forall₂ SpellsByte ["#0xFF", "#0x1"] [0xFF, 0x01] :=
    .cons ⟨['F', 'F'], by decide, by decide⟩ (.cons ⟨['1'], by decide, by decide⟩ .nil)
  have hy : List.Forall₂ SpellsByte ["#0x01", "#0xff"] [0x01, 0xFF] :=
    .cons ⟨['0', '1'], by decide, by decide⟩ (.cons ⟨['f', 'f'], by decide, by decide⟩ .nil)
  exact after_program { initial with dptr := 0xFFFF } hx hy rfl (by decide)

end Machine

end Microlab.I8051
