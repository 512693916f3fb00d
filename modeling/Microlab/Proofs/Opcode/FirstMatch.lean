import Microlab.Proofs.Opcode.Decoding

/-!
# The first opcode that matches

Of two opcodes in a table the codes hardly ever begin alike: mostly the first bytes
differ, or the digits in the second bytes do. Where they do begin alike the earlier
opcode shadows the later. It is the same opcode under another mnemonic, or spells `B`
where the later one stores the direct byte `F0`. Either way the two are equally long,
so what follows a code never changes how it is decoded.
-/

namespace Microlab

/-- The mnemonic that stands first for a jump with two names. -/
def Mnemonic.principal : Mnemonic → Mnemonic
  | jz => je
  | jnz => jne
  | m => m

theorem Mnemonic.principal_principal (m : Mnemonic) : m.principal.principal = m.principal := by
  cases m <;> rfl

/-- The digit of a form that holds one. -/
def Form.digit? : Form → Option (BitVec 3)
  | extension digit => some digit
  | _ => none

namespace Opcode

/-! ## First bytes -/

/-- The least byte that a code of the opcode begins with. -/
def first (o : Opcode) : Byte := o.lead.headD o.last

/-- How many bytes the codes of the opcode can begin with. -/
def span (o : Opcode) : Nat :=
  if o.lead = [] ∧ o.form = .plain ∧ 0 < o.registerCount then 8 else 1

/-- No codes of the two begin with the same byte. -/
def FirstApart (o o' : Opcode) : Prop :=
  o.span ≤ (o'.first - o.first).toNat ∧ o'.span ≤ (o.first - o'.first).toNat

/-- Both hold a digit in the second byte, and not the same. -/
def DigitsApart (o o' : Opcode) : Prop :=
  o.lead = [] ∧ o'.lead = [] ∧ o.form.digit? ≠ none ∧ o'.form.digit? ≠ none ∧
    o.form.digit? ≠ o'.form.digit?

/-- The opcode that spells `B` in place of a direct byte. -/
def onB? : Opcode → Option Opcode
  | ⟨m, [], last, n, .plain, [.exact a, .field .direct]⟩ =>
    some ⟨m, [last], 0xF0, n, .plain, [.exact a, .exact "B"]⟩
  | ⟨m, [], last, n, .plain, .field .direct :: ps⟩ =>
    some ⟨m, [last], 0xF0, n, .plain, .exact "B" :: ps⟩
  | _ => none

/-- The first opcode decodes some codes of the second. -/
def Shadows (o o' : Opcode) : Prop :=
  o = { o' with mnemonic := o'.mnemonic.principal } ∨ (o'.onB? = some o ∧ o'.registerCount = 0)

/-- The codes of the two begin differently, unless the first shadows the second. -/
def Told (o o' : Opcode) : Prop := o.FirstApart o' ∨ o.DigitsApart o' ∨ o.Shadows o'

instance (o o' : Opcode) : Decidable (o.FirstApart o') := inferInstanceAs (Decidable (_ ∧ _))

instance (o o' : Opcode) : Decidable (o.DigitsApart o') :=
  inferInstanceAs (Decidable (_ ∧ _ ∧ _ ∧ _ ∧ _))

instance (o o' : Opcode) : Decidable (o.Shadows o') := inferInstanceAs (Decidable (_ ∨ _))

instance (o o' : Opcode) : Decidable (o.Told o') := inferInstanceAs (Decidable (_ ∨ _ ∨ _))

end Opcode

theorem Arch.pairwise_told (arch : Arch) : arch.opcodes.Pairwise Opcode.Told := by
  cases arch <;> decide +kernel

/-! ## Codes that begin alike -/

namespace Opcode

theorem exists_head_eq_cons {o : Opcode} {rs : List (BitVec 3)}
    (hlen : rs.length = o.registerCount) :
    ∃ b l, o.head rs = b :: l ∧ (b - o.first).toNat < o.span := by
  rw [head_eq]
  unfold first span
  cases hlead : o.lead with
  | cons x xs => exact ⟨x, _, rfl, by simp⟩
  | nil =>
      unfold tail
      cases hform : o.form with
      | plain =>
          refine ⟨_, [], rfl, ?_⟩
          simp only [List.headD_nil, true_and]
          by_cases hpos : 0 < o.registerCount
          · rw [if_pos hpos]
            have hr : (rs.getD 0 0).toNat < 8 := (rs.getD 0 0).isLt
            have hsetWidth : ((rs.getD 0 0).setWidth 8).toNat = (rs.getD 0 0).toNat := by
              rw [BitVec.toNat_setWidth]
              omega
            bv_omega
          · rw [if_neg hpos]
            obtain rfl : rs = [] := List.length_eq_zero_iff.mp (by omega)
            simp
      | registerPair => exact ⟨o.last, _, rfl, by simp⟩
      | extension digit => exact ⟨o.last, _, rfl, by simp⟩

theorem onB?_eq_some {o b : Opcode} (h : o.onB? = some b) :
    (∃ m last n a, o = ⟨m, [], last, n, .plain, [.exact a, .direct]⟩ ∧
      b = ⟨m, [last], 0xF0, n, .plain, [.exact a, .exact "B"]⟩) ∨
    (∃ m last n ps, o = ⟨m, [], last, n, .plain, .direct :: ps⟩ ∧
      b = ⟨m, [last], 0xF0, n, .plain, .exact "B" :: ps⟩) := by
  unfold onB? at h
  split at h
  · next m last n a => exact Or.inl ⟨m, last, n, a, rfl, (Option.some.inj h).symm⟩
  · next m last n ps => exact Or.inr ⟨m, last, n, ps, rfl, (Option.some.inj h).symm⟩
  · cases h

theorem mnemonic_of_onB? {o b : Opcode} (h : o.onB? = some b) : b.mnemonic = o.mnemonic := by
  rcases onB?_eq_some h with ⟨m, last, n, a, rfl, rfl⟩ | ⟨m, last, n, ps, rfl, rfl⟩
  · rfl
  · rfl

theorem Shadows.length_eq {o o' : Opcode} (h : o.Shadows o') : o.length = o'.length := by
  rcases h with h | ⟨h, -⟩
  · rw [h]
  · rcases onB?_eq_some h with ⟨m, last, n, a, rfl, rfl⟩ | ⟨m, last, n, ps, rfl, rfl⟩
    · rfl
    · rfl

end Opcode

namespace Selection

variable {order : ByteOrder} {s t : Selection} {rest rest' : List Byte}

theorem false_of_firstApart (hs : s.IsBound) (ht : t.IsBound)
    (hapart : s.opcode.FirstApart t.opcode)
    (h : s.code order ++ rest = t.code order ++ rest') : False := by
  obtain ⟨b, l, hhead, hb⟩ := Opcode.exists_head_eq_cons (length_registersOf hs)
  obtain ⟨b', l', hhead', hb'⟩ := Opcode.exists_head_eq_cons (length_registersOf ht)
  unfold code at h
  rw [registers_eq, registers_eq, hhead, hhead'] at h
  obtain ⟨rfl, -⟩ := List.cons.inj h
  obtain ⟨hle, hle'⟩ := hapart
  -- a common first byte lies in both spans, which begin too far from each other
  have hb := Nat.lt_of_lt_of_le hb hle
  have hb' := Nat.lt_of_lt_of_le hb' hle'
  bv_omega

theorem false_of_digitsApart (hapart : s.opcode.DigitsApart t.opcode)
    (h : s.code order ++ rest = t.code order ++ rest') : False := by
  obtain ⟨hlead, hlead', hdigit, hdigit', hne⟩ := hapart
  unfold code at h
  rw [Opcode.head_eq, Opcode.head_eq, hlead, hlead'] at h
  unfold Opcode.tail at h
  cases hform : s.opcode.form with
  | plain => simp [hform, Form.digit?] at hdigit
  | registerPair => simp [hform, Form.digit?] at hdigit
  | extension digit =>
      cases hform' : t.opcode.form with
      | plain => simp [hform', Form.digit?] at hdigit'
      | registerPair => simp [hform', Form.digit?] at hdigit'
      | extension digit' =>
          simp only [hform, hform', List.nil_append, List.cons_append, List.cons.injEq] at h
          -- the second bytes are the same, and with them the digits
          have hreg := congrArg (BitVec.extractLsb' 3 3) h.2.1
          rw [reg_modRM, reg_modRM] at hreg
          rw [hform, hform', hreg] at hne
          exact hne rfl

theorem append_inj (hreg : s.opcode.Regular) (hreg' : t.opcode.Regular) (hs : s.IsBound)
    (ht : t.IsBound) (hlen : s.opcode.length = t.opcode.length)
    (h : s.code order ++ rest = t.code order ++ rest') : s.code order = t.code order := by
  apply List.append_inj_left h
  rw [length_code order hreg hs, length_code order hreg' ht, hlen]

/-- The decoder's answer to the code of the selection, were its opcode the first match. -/
def decoded (s : Selection) : Decoded := ⟨s.opcode.mnemonic, s.spelled, s.opcode.length⟩

/-- An opcode that decodes the start of another's code decodes all of it, and is the same
or shadows it. -/
theorem exists_of_decode?_code {o : Opcode} {d : Decoded} (ho : o.Regular)
    (hreg : s.opcode.Regular) (hs : s.IsBound) (htold : o = s.opcode ∨ o.Told s.opcode)
    (h : o.decode? order (s.code order ++ rest) = some d) :
    ∃ t : Selection, t.opcode = o ∧ t.IsBound ∧ t.IsRead ∧ t.code order = s.code order ∧
      d = t.decoded ∧ (o = s.opcode ∨ o.Shadows s.opcode) := by
  obtain ⟨t, rest', rfl, ht, hread, hcode, rfl⟩ := Opcode.exists_of_decode? ho h
  have hsame : t.opcode = s.opcode ∨ t.opcode.Shadows s.opcode := by
    rcases htold with heq | hapart | hapart | hshadows
    · exact Or.inl heq
    · exact (false_of_firstApart ht hs hapart hcode.symm).elim
    · exact (false_of_digitsApart hapart hcode.symm).elim
    · exact Or.inr hshadows
  have hlen : t.opcode.length = s.opcode.length := by
    rcases hsame with heq | hshadows
    · rw [heq]
    · exact hshadows.length_eq
  exact ⟨t, rfl, ht, hread, append_inj ho hreg ht hs hlen hcode.symm, rfl, hsame⟩

theorem decode?_append_congr {o : Opcode} (ho : o.Regular) (hreg : s.opcode.Regular)
    (hs : s.IsBound) (htold : o = s.opcode ∨ o.Told s.opcode) :
    o.decode? order (s.code order ++ rest) = o.decode? order (s.code order) := by
  have hself : s.code order = s.code order ++ [] := (List.append_nil _).symm
  apply Option.ext
  intro d
  constructor
  · intro h
    obtain ⟨t, rfl, ht, -, hcode, rfl, -⟩ := exists_of_decode?_code ho hreg hs htold h
    rw [hself, ← hcode]
    exact Opcode.decode?_code _ ho ht []
  · intro h
    rw [hself] at h
    obtain ⟨t, rfl, ht, -, hcode, rfl, -⟩ := exists_of_decode?_code ho hreg hs htold h
    rw [← hcode]
    exact Opcode.decode?_code _ ho ht rest

end Selection

/-! ## Decoding -/

namespace Arch

variable {arch : Arch} {s : Selection}

theorem exists_of_decode? {bytes : List Byte} {d : Decoded} (h : arch.decode? bytes = some d) :
    ∃ (s : Selection) (rest : List Byte), s.opcode ∈ arch.opcodes ∧ s.IsBound ∧ s.IsRead ∧
      bytes = s.code arch.byteOrder ++ rest ∧ d = s.decoded := by
  obtain ⟨o, ho, hd⟩ := List.exists_of_findSome?_eq_some h
  obtain ⟨s, rest, rfl, hs, hread, hcode, rfl⟩ :=
    Opcode.exists_of_decode? (regular_of_mem ho) hd
  exact ⟨s, rest, ho, hs, hread, hcode, rfl⟩

theorem findSome?_congr {α β : Type} {f g : α → Option β} {l : List α}
    (h : ∀ a ∈ l, f a = g a) : l.findSome? f = l.findSome? g := by
  induction l with
  | nil => rfl
  | cons a l ih =>
      rw [List.findSome?_cons, List.findSome?_cons, h a List.mem_cons_self,
        ih fun b hb => h b (List.mem_cons_of_mem a hb)]

theorem exists_front (hmem : s.opcode ∈ arch.opcodes) :
    ∃ front back, arch.opcodes = front ++ s.opcode :: back ∧
      ∀ o ∈ front, o ∈ arch.opcodes ∧ o.Told s.opcode := by
  obtain ⟨front, back, hsplit⟩ := List.append_of_mem hmem
  refine ⟨front, back, hsplit, ?_⟩
  intro o ho
  constructor
  · rw [hsplit]
    exact List.mem_append_left _ ho
  · have hpair := arch.pairwise_told
    rw [hsplit] at hpair
    exact (List.pairwise_append.mp hpair).2.2 o ho s.opcode List.mem_cons_self

/-- What follows a code does not change how it is decoded. -/
theorem decode?_code_append (hmem : s.opcode ∈ arch.opcodes) (hs : s.IsBound)
    (rest : List Byte) :
    arch.decode? (s.code arch.byteOrder ++ rest) = arch.decode? (s.code arch.byteOrder) := by
  obtain ⟨front, back, hsplit, hfront⟩ := exists_front hmem
  have hreg := regular_of_mem hmem
  have hself := Opcode.decode?_code arch.byteOrder hreg hs []
  rw [List.append_nil] at hself
  unfold decode?
  rw [hsplit, List.findSome?_append, List.findSome?_append, List.findSome?_cons,
    List.findSome?_cons, hself, Opcode.decode?_code _ hreg hs rest]
  have hsame : ∀ o ∈ front, o.decode? arch.byteOrder (s.code arch.byteOrder ++ rest)
      = o.decode? arch.byteOrder (s.code arch.byteOrder) := by
    intro o ho
    obtain ⟨homem, htold⟩ := hfront o ho
    exact Selection.decode?_append_congr (regular_of_mem homem) hreg hs (Or.inr htold)
  rw [findSome?_congr hsame]

/-- A code is decoded, as one of the same opcode or of one that shadows it. -/
theorem decode?_code (hmem : s.opcode ∈ arch.opcodes) (hs : s.IsBound) :
    ∃ t : Selection, t.opcode ∈ arch.opcodes ∧ t.IsBound ∧ t.IsRead ∧
      t.code arch.byteOrder = s.code arch.byteOrder ∧
      (t.opcode = s.opcode ∨ t.opcode.Shadows s.opcode) ∧
      arch.decode? (s.code arch.byteOrder) = some t.decoded := by
  obtain ⟨front, back, hsplit, hfront⟩ := exists_front hmem
  have hself := Opcode.decode?_code arch.byteOrder (regular_of_mem hmem) hs []
  obtain ⟨d, hd⟩ : ∃ d, arch.decode? (s.code arch.byteOrder ++ []) = some d := by
    rw [← Option.isSome_iff_exists]
    unfold decode?
    rw [List.findSome?_isSome_iff]
    exact ⟨s.opcode, hmem, by rw [hself]; rfl⟩
  have hfirst : ∃ o ∈ arch.opcodes, (o = s.opcode ∨ o.Told s.opcode) ∧
      o.decode? arch.byteOrder (s.code arch.byteOrder ++ []) = some d := by
    have hd := hd
    unfold decode? at hd
    rw [hsplit, List.findSome?_append, List.findSome?_cons, hself,
      Option.or_eq_some_iff] at hd
    rcases hd with hd | ⟨-, hd⟩
    · obtain ⟨o, ho, hod⟩ := List.exists_of_findSome?_eq_some hd
      exact ⟨o, (hfront o ho).1, Or.inr (hfront o ho).2, hod⟩
    · exact ⟨s.opcode, hmem, Or.inl rfl, hself.trans hd⟩
  obtain ⟨o, ho, htold, hod⟩ := hfirst
  obtain ⟨t, rfl, ht, hread, hcode, rfl, hsame⟩ :=
    Selection.exists_of_decode?_code (regular_of_mem ho) (regular_of_mem hmem) hs htold hod
  rw [List.append_nil] at hd
  exact ⟨t, ho, ht, hread, hcode, hsame, hd⟩

/-- The mnemonic that the decoder prints. -/
def principal : Arch → Mnemonic → Mnemonic
  | i8086, m => m.principal
  | i8051, m => m

theorem principal_mem_i8086 {o : Opcode} (h : o ∈ I8086.opcodes) :
    { o with mnemonic := o.mnemonic.principal } ∈ I8086.opcodes ∧ o.onB? = none := by
  have hall : ∀ o ∈ I8086.opcodes,
      { o with mnemonic := o.mnemonic.principal } ∈ I8086.opcodes ∧ o.onB? = none := by
    decide +kernel
  exact hall o h

theorem principal_eq_i8051 {o : Opcode}
    (h : { o with mnemonic := o.mnemonic.principal } ∈ I8051.opcodes) :
    o.mnemonic.principal = o.mnemonic := by
  have hall : ∀ o ∈ I8051.opcodes, o.mnemonic ≠ .je ∧ o.mnemonic ≠ .jne := by
    decide +kernel
  obtain ⟨hje, hjne⟩ := hall _ h
  cases hm : o.mnemonic <;> simp_all [Mnemonic.principal]

/-- **What the decoder makes of a code.** It is the opcode the code is of, under the
mnemonic that stands first, or on the 8051 the one that spells `B`. -/
theorem decode?_code_principal (hmem : s.opcode ∈ arch.opcodes) (hs : s.IsBound) :
    ∃ t : Selection, t.opcode ∈ arch.opcodes ∧ t.IsBound ∧ t.IsRead ∧
      t.code arch.byteOrder = s.code arch.byteOrder ∧
      t.opcode.mnemonic = arch.principal s.opcode.mnemonic ∧
      (t.opcode = { s.opcode with mnemonic := arch.principal s.opcode.mnemonic } ∨
        (s.opcode.onB? = some t.opcode ∧ s.opcode.registerCount = 0)) ∧
      t.opcode.length = s.opcode.length ∧
      ∀ rest, arch.decode? (s.code arch.byteOrder ++ rest) = some t.decoded := by
  cases arch with
  | i8086 =>
      -- the opcode with the principal mnemonic is in the table and has the same codes, and
      -- no other opcode shadows it
      have hlead := (principal_mem_i8086 hmem).1
      have hs' : Selection.IsBound
          ⟨{ s.opcode with mnemonic := s.opcode.mnemonic.principal }, s.bound⟩ := hs
      obtain ⟨t, ht, htb, hread, hcode, hsame, hdec⟩ := @decode?_code i8086 _ hlead hs'
      have hop : t.opcode = { s.opcode with mnemonic := s.opcode.mnemonic.principal } := by
        rcases hsame with hop | hop | ⟨hop, -⟩
        · exact hop
        · rw [hop, Mnemonic.principal_principal]
        · rw [(principal_mem_i8086 hlead).2] at hop
          cases hop
      refine ⟨t, ht, htb, hread, hcode, ?_, Or.inl hop, ?_, fun rest => ?_⟩
      · rw [hop]
        rfl
      · rw [hop]
      · rw [decode?_code_append hmem hs]
        exact hdec
  | i8051 =>
      obtain ⟨t, ht, htb, hread, hcode, hsame, hdec⟩ := decode?_code hmem hs
      have hlen : t.opcode.length = s.opcode.length := by
        rcases hsame with hop | hshadows
        · rw [hop]
        · exact hshadows.length_eq
      have hrest : ∀ rest, i8051.decode? (s.code i8051.byteOrder ++ rest) = some t.decoded := by
        intro rest
        rw [decode?_code_append hmem hs, hdec]
      refine ⟨t, ht, htb, hread, hcode, ?_, ?_, hlen, hrest⟩
      · rcases hsame with hop | hop | ⟨hop, -⟩
        · rw [hop]
          rfl
        · rw [hop] at ht ⊢
          exact principal_eq_i8051 ht
        · exact Opcode.mnemonic_of_onB? hop
      · rcases hsame with hop | hop | hop
        · exact Or.inl hop
        · -- no jump of this table has two names
          have hkeep := principal_eq_i8051 (hop ▸ ht)
          rw [hkeep] at hop
          exact Or.inl hop
        · exact Or.inr hop

end Arch

end Microlab
