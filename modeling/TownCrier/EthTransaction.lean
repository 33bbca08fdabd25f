import TownCrier.Encoding
import Mathlib.Data.List.Basic

/-!
# Transactions of the enclave

`rlp_item` and `Transaction::rlpEncode` of `eth_transaction.cpp`. The fields
are appended one after another; the list header is computed from the length of
what was written and put in front of it. A body which needs more than four
length bytes is left without a header, as the source only logs that case.
-/
namespace TownCrier.EthTransaction
open BigEndian Cpp Encoding

inductive Kind where
  | nullTransaction | contractCreation | messageCall
  deriving DecidableEq, Repr

structure Transaction where
  type : Kind
  mNonce : Bytes
  mGasPrice : Bytes
  mGas : Bytes
  mTo : Bytes20
  mValue : Bytes
  mData : Bytes
  r : Bytes
  s : Bytes
  v : UInt8

/-- The bytes of an `int`, whose shift keeps the sign. The mask leaves the low byte. -/
def intShiftLoop (len : Int32) : ℕ → Bytes
  | 0 => []
  | i+1 => UInt8.ofInt (len.toInt >>> (8*i))::intShiftLoop len i

/-- A null pointer is `none`; the loops read `len` bytes behind any other. -/
def rlpItem (input : Option Bytes) (len : Int32) (out : Bytes) : Exec Bytes :=
  match input with
  | none => raise .invalidArgument
  | some p =>
      if len = 1 ∧ p.headD 0 < 0x80 then pure (out++[p.headD 0])
      else if len < 56 then
        pure (out++[0x80+toByte (widen len).toNat]++p.take len.toInt.toNat)
      else
        let lenLen := bytesRequired (widen len)
        if lenLen > 8 then raise .invalidArgument
        else pure (out++[0xb7+toByte lenLen]++intShiftLoop len lenLen++p.take len.toInt.toNat)

/-- The list header, in front of everything written so far. -/
def prependHeader (out : Bytes) : Bytes :=
  if out.length < 56 then toByte (0xc0+out.length)::out
  else
    let lenLen := byteLength out.length
    -- "Error: string too long" is logged and the buffer stays as it is.
    if lenLen > 4 then out
    else (0xf7+toByte lenLen)::shiftLoop (UInt64.ofNat out.length) lenLen++out

def Transaction.rlpEncode (t : Transaction) (out : Bytes) (withSig : Bool) : Exec Bytes := do
  let out ← rlpString t.mNonce out
  let out ← rlpString t.mGasPrice out
  let out ← rlpString t.mGas out
  let out ← if t.type = .messageCall then rlpString t.mTo.val out else pure out
  let out ← rlpString t.mValue out
  let out ← rlpString t.mData out
  let out ← if withSig then do
      let out ← rlpItem (some [t.v]) 1 out
      let out ← rlpString t.r out
      rlpString t.s out
    else pure out
  pure (prependHeader out)

/-- The constructor, once the address text has been read. The signature holds
zeros until one is written; `v` has no initial value in the source. -/
def construct (type : Kind) (nonce gasprice gaslimit : UInt64) (receiver : Bytes20)
    (value : UInt64) (data : Bytes) (v : UInt8) : Transaction :=
  { type, v, mTo := receiver, mData := data, mNonce := parseUInt64 nonce,
    mGasPrice := parseUInt64 gasprice, mGas := parseUInt64 gaslimit, mValue := parseUInt64 value,
    r := List.replicate 32 0, s := List.replicate 32 0 }

/-- A field of 32 bytes, as `ecdsa_sign` fills it. -/
abbrev Field32 := {b : Bytes // b.length = 32}

/-- `mbedtls_mpi_write_binary` into 32 bytes. -/
def writeBinary (x : BitVec 256) : Field32 := ⟨fixed 32 x.toNat,fixed_length _ _⟩

/-- A message call with every field at its own width. -/
structure MessageCall where
  nonce : UInt64
  gasPrice : UInt64
  gas : UInt64
  receiver : Bytes20
  value : UInt64
  data : Bytes
  v : UInt8
  r : Field32
  s : Field32

def MessageCall.transaction (m : MessageCall) : Transaction :=
  { construct .messageCall m.nonce m.gasPrice m.gas m.receiver m.value m.data m.v with
    r := m.r.val, s := m.s.val }

/-- What a reader of the transaction expects, as byte strings. -/
def MessageCall.fields (m : MessageCall) (withSig : Bool) : List Bytes :=
  [minimal m.nonce.toNat,minimal m.gasPrice.toNat,minimal m.gas.toNat,m.receiver.val,
    minimal m.value.toNat,m.data]++if withSig then [[m.v],m.r.val,m.s.val] else []

def MessageCall.items (m : MessageCall) (withSig : Bool) : List Rlp.Item :=
  (m.fields withSig).map .str

def MessageCall.payload (m : MessageCall) (withSig : Bool) : Bytes :=
  Rlp.encodeAll (m.items withSig)

theorem intShiftLoop_eq {len : Int32} (h : 0 ≤ len.toInt) (i : ℕ) :
    intShiftLoop len i = fixed i len.toInt.toNat := by
  obtain ⟨n,hn⟩ := Int.eq_ofNat_of_zero_le h
  rw [hn,Int.toNat_natCast]
  induction i with
  | zero => rfl
  | succ i ih =>
      have hshift : (n : ℤ) >>> (8*i) = ((n/256^i : ℕ) : ℤ) := by
        rw [Int.shiftRight_eq_div_pow,Nat.pow_mul]
        rfl
      have hbyte (k : ℕ) : UInt8.ofInt (k : ℤ) = UInt8.ofNat k := by
        apply UInt8.toNat_inj.mp
        rw [UInt8.ofInt,UInt8.toNat_ofNat',UInt8.toNat_ofNat']
        omega
      rw [intShiftLoop,fixed,ih,hn,hshift,hbyte]

/-- A length in the range of `int` passes through the argument of `rlp_item`. -/
theorem narrow_length {n : ℕ} (h : n < 2^31) : (narrow (UInt64.ofNat n)).toInt = n := by
  rw [narrow,Int32.toInt_ofInt,UInt64.toNat_ofNat',Nat.mod_eq_of_lt (by omega),Int.bmod,
    show (Int32.size : ℤ) = 2^32 from rfl]
  omega

/-- The loops over a pointer and an `int` write what the template writes. -/
theorem rlpItem_eq {b : Bytes} (h : b.length < 2^31) (rest out : Bytes) :
    rlpItem (some (b++rest)) (narrow (UInt64.ofNat b.length)) out = rlpString b out := by
  have hint := narrow_length h
  generalize narrow (UInt64.ofNat b.length) = len at hint
  have hwide : (widen len).toNat = b.length := by
    rw [widen_toNat,hint]
    omega
  have hone : len = 1 ↔ b.length = 1 := by
    rw [← Int32.toInt_inj,hint]
    exact Nat.cast_eq_one
  have hshort : len < 56 ↔ b.length < 56 := by
    rw [Int32.lt_iff_toInt_lt,hint]
    exact Nat.cast_lt (n := 56)
  have htake : (b++rest).take len.toInt.toNat = b := by
    rw [hint,Int.toNat_natCast,List.take_left]
  have hlong : intShiftLoop len (byteLength b.length) = itob (UInt64.ofNat b.length) 0 := by
    rw [intShiftLoop_eq (by omega),itob_eq,hint,byteLength_eq,UInt64.toNat_ofNat',
      Nat.mod_eq_of_lt (by omega),Nat.zero_sub]
    rfl
  rw [rlpItem,rlpString,bytesRequired,hwide,htake]
  dsimp only
  rw [hlong]
  by_cases hsingle : b.length = 1
  · obtain ⟨v,rfl⟩ := List.length_eq_one_iff.mp hsingle
    simp [hone,hshort]
  · simp [hone,hshort,hsingle]

/-- The two encoders append the same bytes, which nothing but this string is read from. -/
theorem rlpItem_eq_rlpString {b : Bytes} (h : b.length < 2^31) (rest out : Bytes) :
    rlpItem (some (b++rest)) (narrow (UInt64.ofNat b.length)) out = rlpString b out ∧
      rlpString b out = pure (out++Rlp.encodeStr b) ∧
      ∀ x, Rlp.parse x = some (.str b) ↔ x = Rlp.encodeStr b :=
  ⟨rlpItem_eq h rest out,rlpString_eq b out (by omega),fun _ => Rlp.parse_eq_str (by omega)⟩

theorem rlpItem_eq_rlpString_pair :
    rlpItem (some ([0x80,1]++[7])) (narrow (UInt64.ofNat 2)) [5] = rlpString [0x80,1] [5] ∧
      rlpString [0x80,1] [5] = pure ([5]++Rlp.encodeStr [0x80,1]) ∧
      ∀ x, Rlp.parse x = some (.str [0x80,1]) ↔ x = Rlp.encodeStr [0x80,1] :=
  rlpItem_eq_rlpString (by decide) [7] [5]

theorem rlpItem_byte (v : UInt8) (out : Bytes) :
    rlpItem (some [v]) 1 out = pure (out++Rlp.encodeStr [v]) := by
  have hone : (1 : ℕ) < 2^31 := by decide
  exact (rlpItem_eq (b := [v]) hone [] out).trans (rlpString_eq [v] out (hone.trans (by decide)))

/-- Up to four length bytes the header is the canonical one. -/
theorem prependHeader_eq (out : Bytes) :
    prependHeader out = if out.length < 2^32 then Rlp.encodeList out else out := by
  have hfour : ¬byteLength out.length > 4 ↔ out.length < 2^32 := by
    rw [byteLength_eq,not_lt]
    exact size_le_iff
  unfold prependHeader Rlp.encodeList Rlp.header
  by_cases h₁ : out.length < 56
  · rw [if_pos h₁,if_pos h₁,if_pos (by omega)]
    rfl
  · by_cases h₂ : out.length < 2^32
    · have hn : (UInt64.ofNat out.length).toNat = out.length := by
        rw [UInt64.toNat_ofNat',Nat.mod_eq_of_lt (by omega)]
      simp only [h₁,h₂,hfour.mpr h₂,if_true,if_false]
      simp only [shiftLoop_eq,hn,byteLength_eq,toByte]
      rw [UInt8.ofNat_add (0xc0+55)]
      rfl
    · have h₄ : byteLength out.length > 4 := by
        by_contra h
        exact h₂ (hfour.mp h)
      rw [if_neg h₁,if_neg h₂]
      simp only [h₄,if_true]

theorem minimal_short (n : UInt64) : (minimal n.toNat).length < 2^64 := by
  rw [minimal_length]
  exact (size_toNat_le n).trans_lt (by norm_num)

/-- What is written for a message call whose data has a length that C++ can
hold: the fields in order, behind a header if four length bytes are enough. -/
theorem rlpEncode_eq (m : MessageCall) (withSig : Bool) (h : m.data.length < 2^64) :
    m.transaction.rlpEncode [] withSig = pure (prependHeader (m.payload withSig)) := by
  have hto : m.receiver.val.length < 2^64 := by rw [m.receiver.property]; norm_num
  have hr : m.r.val.length < 2^64 := by rw [m.r.property]; norm_num
  have hs : m.s.val.length < 2^64 := by rw [m.s.property]; norm_num
  cases withSig with
  | false =>
      simp only [Transaction.rlpEncode,MessageCall.transaction,construct,parseUInt64_eq,if_true,
        rlpString_eq _ _ (minimal_short _),rlpString_eq _ _ hto,rlpString_eq _ _ h,pure_bind,
        Bool.false_eq_true,if_false,List.nil_append,MessageCall.payload,MessageCall.items,
        MessageCall.fields,List.append_nil,List.map_cons,List.map_nil,Rlp.encodeAll,Rlp.encode,
        List.append_assoc]
  | true =>
      simp only [Transaction.rlpEncode,MessageCall.transaction,construct,parseUInt64_eq,if_true,
        rlpString_eq _ _ (minimal_short _),rlpString_eq _ _ hto,rlpString_eq _ _ h,rlpString_eq _ _ hr,
        rlpString_eq _ _ hs,rlpItem_byte,pure_bind,List.nil_append,MessageCall.payload,
        MessageCall.items,MessageCall.fields,List.append_nil,List.cons_append,List.map_cons,
        List.map_nil,Rlp.encodeAll,Rlp.encode,List.append_assoc]

theorem length_le_encodeAll {b : Bytes} {items : List Rlp.Item} (h : .str b ∈ items) :
    b.length ≤ (Rlp.encodeAll items).length := by
  induction items with
  | nil => simp at h
  | cons i items ih =>
      rw [Rlp.encodeAll,List.length_append]
      rcases List.mem_cons.mp h with rfl | h
      · have : b.length ≤ (Rlp.encodeStr b).length := by
          unfold Rlp.encodeStr
          split_ifs <;> simp
        rw [Rlp.encode]
        omega
      · have := ih h
        omega

theorem fitsAll_str {bs : List Bytes} (h : (Rlp.encodeAll (bs.map .str)).length < 256^8) :
    Rlp.FitsAll (bs.map .str) := by
  induction bs with
  | nil => trivial
  | cons b bs ih =>
      refine ⟨(length_le_encodeAll (List.mem_cons_self ..)).trans_lt h,ih ?_⟩
      rw [List.map_cons,Rlp.encodeAll,List.length_append] at h
      omega

theorem payload_fits {m : MessageCall} {withSig : Bool}
    (h : (m.payload withSig).length < 2^32) : Rlp.Fits (.list (m.items withSig)) := by
  have hlt : (m.payload withSig).length < 256^8 := h.trans (by norm_num)
  exact ⟨fitsAll_str hlt,hlt⟩

theorem data_length_le (m : MessageCall) (withSig : Bool) :
    m.data.length ≤ (m.payload withSig).length :=
  length_le_encodeAll (by simp [MessageCall.items,MessageCall.fields])

/-- A transaction whose payload gets a header is its canonical list. -/
theorem rlpEncode_small {m : MessageCall} {withSig : Bool}
    (h : (m.payload withSig).length < 2^32) :
    m.transaction.rlpEncode [] withSig = pure (Rlp.encode (.list (m.items withSig))) := by
  rw [rlpEncode_eq m withSig ((data_length_le m withSig).trans_lt (h.trans (by norm_num))),
    prependHeader_eq,if_pos h]
  rfl

/-- Equal byte strings come from equal fields; without a signature the fields
of the signature do not count. -/
theorem fields_injective {m m' : MessageCall} {withSig withSig' : Bool}
    (h : m.fields withSig = m'.fields withSig') :
    withSig = withSig' ∧ m.nonce = m'.nonce ∧ m.gasPrice = m'.gasPrice ∧ m.gas = m'.gas ∧
      m.receiver = m'.receiver ∧ m.value = m'.value ∧ m.data = m'.data ∧
      (withSig = true → m.v = m'.v ∧ m.r = m'.r ∧ m.s = m'.s) := by
  have hint : ∀ {a b : UInt64}, minimal a.toNat = minimal b.toNat → a = b :=
    fun h => UInt64.toNat_inj.mp (minimal_injective h)
  obtain rfl : withSig = withSig' := by
    have hlen := congrArg List.length h
    cases withSig <;> cases withSig' <;> simp [MessageCall.fields] at hlen ⊢
  simp only [MessageCall.fields,List.cons_append,List.nil_append,List.cons.injEq] at h
  obtain ⟨hn,hp,hg,ht,hv,hd,hsig⟩ := h
  refine ⟨rfl,hint hn,hint hp,hint hg,Subtype.ext ht,hint hv,hd,?_⟩
  rintro rfl
  simp only [if_true,List.cons.injEq,and_true] at hsig
  exact ⟨hsig.1,Subtype.ext hsig.2.1,Subtype.ext hsig.2.2⟩

theorem items_injective {bs cs : List Bytes} (h : bs.map Rlp.Item.str = cs.map Rlp.Item.str) :
    bs = cs :=
  List.map_injective_iff.mpr (fun _ _ h => Rlp.Item.str.inj h) h

/-- The strict decoder consumes the whole output and finds the fields, and no
other transaction has this output. -/
theorem transaction_roundtrip (m : MessageCall) (withSig : Bool)
    (h : (m.payload withSig).length < 2^32) :
    ∃ out, m.transaction.rlpEncode [] withSig = pure out ∧
      Rlp.parse out = some (.list ((m.fields withSig).map .str)) ∧
      (m.fields withSig).length = (if withSig then 9 else 6) ∧
      ∀ (m' : MessageCall) (withSig' : Bool), (m'.payload withSig').length < 2^32 →
        m'.transaction.rlpEncode [] withSig' = pure out →
        withSig = withSig' ∧ m.nonce = m'.nonce ∧ m.gasPrice = m'.gasPrice ∧ m.gas = m'.gas ∧
          m.receiver = m'.receiver ∧ m.value = m'.value ∧ m.data = m'.data ∧
          (withSig = true → m.v = m'.v ∧ m.r = m'.r ∧ m.s = m'.s) := by
  refine ⟨_,rlpEncode_small h,Rlp.parse_encode _ (payload_fits h),?_,?_⟩
  · cases withSig <;> rfl
  · intro m' withSig' h' heq
    rw [rlpEncode_small h'] at heq
    have hitems := Rlp.encode_injective (payload_fits h') (payload_fits h) (Except.ok.inj heq)
    exact fields_injective (items_injective (Rlp.Item.list.inj hitems).symm)

/-- A message call at the boundaries: zero scalars, 56 bytes of data and a
signature byte that needs a header. -/
def boundaryCall : MessageCall where
  nonce := 0
  gasPrice := 0x80
  gas := 0x7f
  receiver := ⟨List.replicate 20 0,by decide⟩
  value := 0
  data := List.replicate 56 0xff
  v := 0x80
  r := ⟨List.replicate 32 0,by decide⟩
  s := ⟨List.replicate 32 1,by decide⟩

theorem boundary_roundtrip :
    ∃ out, boundaryCall.transaction.rlpEncode [] true = pure out ∧
      Rlp.parse out = some (.list ((boundaryCall.fields true).map .str)) :=
  have ⟨out,henc,hparse,_⟩ := transaction_roundtrip boundaryCall true (by decide +kernel)
  ⟨out,henc,hparse⟩

/-- The signature as `ecdsa_sign` leaves it in the transaction. -/
def MessageCall.sign (m : MessageCall) (v : UInt8) (r s : BitVec 256) : MessageCall :=
  {m with v, r := writeBinary r, s := writeBinary s}

/-- What a node demands of each item: a number has no leading zero byte. -/
def MessageCall.canonicalFields (m : MessageCall) (v : UInt8) (r s : BitVec 256) : List Bytes :=
  [minimal m.nonce.toNat,minimal m.gasPrice.toNat,minimal m.gas.toNat,m.receiver.val,
    minimal m.value.toNat,m.data,minimal v.toNat,minimal r.toNat,minimal s.toNat]

def MessageCall.canonical (m : MessageCall) (v : UInt8) (r s : BitVec 256) : Rlp.Item :=
  .list ((m.canonicalFields v r s).map .str)

theorem byte_eq_minimal_iff (v : UInt8) : [v] = minimal v.toNat ↔ v ≠ 0 := by
  have hv := @fixed_eq_minimal_iff 0 v.toNat (by have := v.toNat_lt; omega)
  have hone : fixed 1 v.toNat = [v] := by simp [fixed]
  rw [zero_add,hone,pow_zero] at hv
  rw [hv,ne_eq,← UInt8.toNat_inj,UInt8.toNat_zero]
  omega

theorem fields_sign_iff (m : MessageCall) (v : UInt8) (r s : BitVec 256) :
    (m.sign v r s).fields true = m.canonicalFields v r s ↔
      v ≠ 0 ∧ 2^248 ≤ r.toNat ∧ 2^248 ≤ s.toNat := by
  have hword : ∀ x : BitVec 256, fixed 32 x.toNat = minimal x.toNat ↔ 2^248 ≤ x.toNat := by
    intro x
    rw [@fixed_eq_minimal_iff 31 _ (by have := x.isLt; omega)]
    norm_num
  simp only [MessageCall.fields,MessageCall.sign,MessageCall.canonicalFields,writeBinary,if_true,
    List.cons_append,List.nil_append,List.cons.injEq,true_and,and_true,hword]
  rw [← byte_eq_minimal_iff]

theorem rlpString_long {s : Bytes} (h : 2^64 ≤ s.length) (out : Bytes) :
    rlpString s out = raise .invalidArgument := by
  have hsize : byteLength s.length > 8 := by
    rw [byteLength_eq,gt_iff_lt,← not_le,size_le_iff]
    omega
  rw [rlpString,if_neg (by omega),if_neg (by omega),if_pos hsize]

/-- Data that no length field can announce stops the encoder. -/
theorem rlpEncode_raise {m : MessageCall} (h : 2^64 ≤ m.data.length) :
    m.transaction.rlpEncode [] true = raise .invalidArgument := by
  have hto : m.receiver.val.length < 2^64 := by rw [m.receiver.property]; norm_num
  simp only [Transaction.rlpEncode,MessageCall.transaction,construct,parseUInt64_eq,if_true,
    rlpString_eq _ _ (minimal_short _),rlpString_eq _ _ hto,rlpString_long h,pure_bind]
  rfl

theorem encodeStr_length_le {b : Bytes} (h : b.length < 256^8) :
    (Rlp.encodeStr b).length ≤ b.length+9 := by
  have := Rlp.size_le_eight h
  unfold Rlp.encodeStr Rlp.header
  split_ifs
  · omega
  · simp [add_comm]
  · simp
    omega

/-- Everything but the data takes at most 198 bytes. -/
theorem payload_length_le (m : MessageCall) (withSig : Bool) (h : m.data.length < 2^64) :
    (m.payload withSig).length ≤ m.data.length+198 := by
  have hint : ∀ n : UInt64, (Rlp.encodeStr (minimal n.toNat)).length ≤ 17 := by
    intro n
    have hs := size_toNat_le n
    have := encodeStr_length_le (b := minimal n.toNat) (by rw [minimal_length]; omega)
    rw [minimal_length] at this
    omega
  have hstr : ∀ {b : Bytes} {k : ℕ}, b.length = k → k < 256^8 →
      (Rlp.encodeStr b).length ≤ k+9 := fun hb hk => hb ▸ encodeStr_length_le (hb ▸ hk)
  have hn := hint m.nonce
  have hp := hint m.gasPrice
  have hg := hint m.gas
  have hv := hint m.value
  have ht := hstr m.receiver.property (by norm_num)
  have hd := hstr (b := m.data) rfl (by omega)
  have hb := hstr (b := [m.v]) (k := 1) rfl (by norm_num)
  have hr := hstr m.r.property (by norm_num)
  have hs := hstr m.s.property (by norm_num)
  cases withSig <;>
    simp only [MessageCall.payload,MessageCall.items,MessageCall.fields,if_true,if_false,
      Bool.false_eq_true,List.append_nil,List.map_cons,List.map_nil,List.cons_append,
      List.nil_append,Rlp.encodeAll,Rlp.encode,List.length_append] <;>
    omega

theorem encodeList_length_le {body : Bytes} (h : body.length < 256^8) :
    (Rlp.encodeList body).length ≤ body.length+9 := by
  have := Rlp.size_le_eight h
  unfold Rlp.encodeList Rlp.header
  split_ifs
  · simp [add_comm]
  · simp
    omega

/-- A number starts with neither a zero byte nor the byte of a list. -/
theorem encodeStr_minimal_head (n : UInt64) :
    ∃ b bs, Rlp.encodeStr (minimal n.toNat) = b::bs ∧ b.toNat ≠ 0 ∧ b.toNat < 0xc0 := by
  have hs := size_toNat_le n
  unfold Rlp.encodeStr
  split_ifs with h
  · obtain ⟨b,hb⟩ := List.length_eq_one_iff.mp h.1
    have hcan := minimal_canonical n.toNat
    rw [hb] at h hcan ⊢
    refine ⟨b,[],rfl,?_,?_⟩
    · intro hz
      exact hcan (congrArg some (UInt8.toNat_inj.mp hz))
    · have := h.2
      simp only [value_cons,value_nil,List.length_nil,pow_zero,mul_one,add_zero] at this
      omega
  · rw [minimal_length,Rlp.header,if_pos (by omega)]
    refine ⟨_,_,rfl,?_,?_⟩ <;> rw [UInt8.toNat_ofNat'] <;> omega

theorem encodeList_head {body : Bytes} (h : body.length < 256^9) :
    ∃ b bs, Rlp.encodeList body = b::bs ∧ (b.toNat = 0 ∨ 0xc0 ≤ b.toNat) := by
  have hs : size body.length ≤ 9 := size_le_iff.mpr h
  unfold Rlp.encodeList Rlp.header
  split_ifs with hlen
  · exact ⟨_,_,rfl,.inr (by rw [UInt8.toNat_ofNat']; omega)⟩
  · exact ⟨_,_,rfl,by rw [UInt8.toNat_ofNat']; omega⟩

/-- Without its header a payload cannot be mistaken for a list. -/
theorem payload_ne_encodeList (m : MessageCall) (withSig : Bool) {body : Bytes}
    (h : body.length < 256^9) : m.payload withSig ≠ Rlp.encodeList body := by
  intro heq
  obtain ⟨b,bs,hb,hne,hlt⟩ := encodeStr_minimal_head m.nonce
  obtain ⟨c,cs,hc,hor⟩ := encodeList_head h
  have hpay : ∃ t, m.payload withSig = b::t := by
    simp only [MessageCall.payload,MessageCall.items,MessageCall.fields,List.cons_append,
      List.map_cons,Rlp.encodeAll,Rlp.encode,hb]
    exact ⟨_,rfl⟩
  obtain ⟨t,ht⟩ := hpay
  rw [ht,hc] at heq
  rw [(List.cons.inj heq).1] at hne hlt
  omega

theorem length_le_encodeList (body : Bytes) : body.length ≤ (Rlp.encodeList body).length := by
  simp [Rlp.encodeList]

/-- A body whose list is as long as that of a short one fits a header. -/
theorem fits_of_encodeList_eq {body short : Bytes}
    (h : Rlp.encodeList body = Rlp.encodeList short) (hshort : short.length < 2^32) :
    body.length < 256^8 := by
  have hle := length_le_encodeList body
  have hlist := @encodeList_length_le short (hshort.trans (by norm_num))
  rw [h] at hle
  omega

/-- The buffers of `r` and `s` always hold 32 bytes and `v` always one, so the
output is canonical exactly when these bytes have no leading zero; a payload of
`2^32` bytes or more gets no header. -/
theorem signed_encoding_canonical_iff (m : MessageCall) (v : UInt8) (r s : BitVec 256) :
    (m.sign v r s).transaction.rlpEncode [] true = pure (Rlp.encode (m.canonical v r s)) ↔
      v ≠ 0 ∧ 2^248 ≤ r.toNat ∧ 2^248 ≤ s.toNat ∧
        (Rlp.encodeAll ((m.canonicalFields v r s).map .str)).length < 2^32 := by
  constructor
  · intro h
    rcases lt_or_ge (m.sign v r s).data.length (2^64) with hd | hd
    · have hlt : ((m.sign v r s).payload true).length < 256^9 :=
        (payload_length_le (m.sign v r s) true hd).trans_lt (by omega)
      have hout := rlpEncode_eq (m.sign v r s) true hd
      rw [h,prependHeader_eq] at hout
      replace hout : Rlp.encodeList (Rlp.encodeAll ((m.canonicalFields v r s).map .str)) = _ :=
        Except.ok.inj hout
      split_ifs at hout with hsmall
      · have hfit := fits_of_encodeList_eq hout hsmall
        have hitems := Rlp.encode_injective (i := m.canonical v r s)
          (j := .list ((m.sign v r s).items true)) ⟨fitsAll_str hfit,hfit⟩ (payload_fits hsmall) hout
        have hfields := items_injective (Rlp.Item.list.inj hitems)
        obtain ⟨hv,hr,hs⟩ := (fields_sign_iff m v r s).mp hfields.symm
        refine ⟨hv,hr,hs,?_⟩
        rw [hfields]
        exact hsmall
      · have hle := length_le_encodeList (Rlp.encodeAll ((m.canonicalFields v r s).map .str))
        rw [hout] at hle
        exact absurd hout.symm (payload_ne_encodeList _ _ (hle.trans_lt hlt))
    · rw [rlpEncode_raise hd] at h
      cases h
  · rintro ⟨hv,hr,hs,hlen⟩
    have hfields := (fields_sign_iff m v r s).mpr ⟨hv,hr,hs⟩
    have hsmall : ((m.sign v r s).payload true).length < 2^32 := by
      rw [MessageCall.payload,MessageCall.items,hfields]
      exact hlen
    rw [rlpEncode_small hsmall,MessageCall.items,hfields]
    rfl

/-- A transfer without data; the signature comes with it. -/
def plainCall : MessageCall :=
  {boundaryCall with data := [], v := 0, r := ⟨List.replicate 32 0,by decide⟩}

/-- `r = 2^247` is written with its leading zero byte. -/
theorem short_r_not_canonical :
    (plainCall.sign 27 (BitVec.ofNat 256 (2^247)) (BitVec.ofNat 256 (2^255))).transaction.rlpEncode
        [] true ≠
      pure (Rlp.encode
        (plainCall.canonical 27 (BitVec.ofNat 256 (2^247)) (BitVec.ofNat 256 (2^255)))) := by
  decide

/-! ## The texts of transactions

Which byte strings the encoder writes: those in which the strict decoder finds fields of the
right widths. A transaction has one text, and a text that was changed in any way is not
another text of the same transaction. -/

/-- A number of 64 bits without a leading zero byte. -/
def Number (b : Bytes) : Prop := Canonical b ∧ b.length ≤ 8

/-- Fields that a message call can have. -/
inductive Shaped : Bool → List Bytes → Prop
  | unsigned {nonce gasPrice gas receiver value data} (hnonce : Number nonce)
      (hprice : Number gasPrice) (hgas : Number gas) (hto : receiver.length = 20)
      (hvalue : Number value) : Shaped false [nonce,gasPrice,gas,receiver,value,data]
  | signed {nonce gasPrice gas receiver value data v r s} (hnonce : Number nonce)
      (hprice : Number gasPrice) (hgas : Number gas) (hto : receiver.length = 20)
      (hvalue : Number value) (hv : v.length = 1) (hr : r.length = 32) (hs : s.length = 32) :
      Shaped true [nonce,gasPrice,gas,receiver,value,data,v,r,s]

theorem number_minimal (n : UInt64) : Number (minimal n.toNat) := by
  refine ⟨minimal_canonical _,?_⟩
  rw [minimal_length]
  exact size_toNat_le n

theorem minimal_number {b : Bytes} (h : Number b) : minimal (UInt64.ofNat (value b)).toNat = b := by
  have hlt : value b < 2^64 := (value_lt b).trans_le (by
    calc 256^b.length ≤ 256^8 := Nat.pow_le_pow_right (by norm_num) h.2
      _ = 2^64 := by norm_num)
  rw [UInt64.toNat_ofNat',Nat.mod_eq_of_lt hlt]
  exact (eq_minimal_of_canonical h.1).symm

theorem shaped_fields (m : MessageCall) (withSig : Bool) : Shaped withSig (m.fields withSig) := by
  have hn := number_minimal m.nonce
  have hp := number_minimal m.gasPrice
  have hg := number_minimal m.gas
  have hv := number_minimal m.value
  cases withSig with
  | false => exact .unsigned hn hp hg m.receiver.property hv
  | true => exact .signed hn hp hg m.receiver.property hv rfl m.r.property m.s.property

/-- Fields of the right widths are those of one message call. -/
theorem exists_fields {withSig : Bool} {fields : List Bytes} (h : Shaped withSig fields) :
    ∃ m : MessageCall, m.fields withSig = fields := by
  cases h with
  | @unsigned nonce gasPrice gas receiver value' data hnonce hprice hgas hto hvalue =>
      refine ⟨⟨.ofNat (value nonce),.ofNat (value gasPrice),.ofNat (value gas),⟨receiver,hto⟩,
        .ofNat (value value'),data,0,⟨List.replicate 32 0,List.length_replicate⟩,
        ⟨List.replicate 32 0,List.length_replicate⟩⟩,?_⟩
      simp only [MessageCall.fields,minimal_number hnonce,minimal_number hprice,minimal_number hgas,
        minimal_number hvalue,Bool.false_eq_true,if_false,List.append_nil]
  | @signed nonce gasPrice gas receiver value' data v r s hnonce hprice hgas hto hvalue hv hr hs =>
      obtain ⟨b,rfl⟩ := List.length_eq_one_iff.mp hv
      refine ⟨⟨.ofNat (value nonce),.ofNat (value gasPrice),.ofNat (value gas),⟨receiver,hto⟩,
        .ofNat (value value'),data,b,⟨r,hr⟩,⟨s,hs⟩⟩,?_⟩
      simp only [MessageCall.fields,minimal_number hnonce,minimal_number hprice,minimal_number hgas,
        minimal_number hvalue,if_true,List.cons_append,List.nil_append]

theorem rlpEncode_iff_parse {m : MessageCall} {withSig : Bool} {raw : Bytes}
    (h : (m.payload withSig).length < 2^32) :
    m.transaction.rlpEncode [] withSig = pure raw ↔
      Rlp.parse raw = some (.list (m.items withSig)) := by
  rw [rlpEncode_small h,Rlp.parse_iff,and_iff_left (payload_fits h)]
  constructor
  · intro heq
    exact (Except.ok.inj heq).symm
  · rintro rfl
    rfl

/-- The encoder writes a byte string for a message call exactly if a strict reader
finds the fields of this call in it, and it does so for some call exactly if
fields of the right widths are found. -/
theorem rlpEncode_iff_shaped (raw : Bytes) (withSig : Bool) :
    (∀ m : MessageCall, (m.payload withSig).length < 2^32 →
      (m.transaction.rlpEncode [] withSig = pure raw ↔
        Rlp.parse raw = some (.list (m.items withSig)))) ∧
    ((∃ m : MessageCall, (m.payload withSig).length < 2^32 ∧
        m.transaction.rlpEncode [] withSig = pure raw) ↔
      ∃ fields, Rlp.parse raw = some (.list (fields.map .str)) ∧ Shaped withSig fields ∧
        (Rlp.encodeAll (fields.map .str)).length < 2^32) := by
  refine ⟨fun m h => rlpEncode_iff_parse h,?_⟩
  constructor
  · rintro ⟨m,hsmall,hraw⟩
    exact ⟨m.fields withSig,(rlpEncode_iff_parse hsmall).mp hraw,shaped_fields m withSig,hsmall⟩
  · rintro ⟨fields,hparse,hshaped,hsmall⟩
    obtain ⟨m,rfl⟩ := exists_fields hshaped
    exact ⟨m,hsmall,(rlpEncode_iff_parse hsmall).mpr hparse⟩

end TownCrier.EthTransaction
