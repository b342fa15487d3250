import AsioExamples.Cxx.Numeric
import AsioExamples.Lib.Framing

/-!
# Chat messages

`chat_message.hpp`. A message holds its length twice: as text in the first four bytes of `data_`, and
as the number `bodyLength_`. `Synced` says that the two agree. It is what `decode_header` establishes
when it returns true and what `encode_header` establishes, and as it speaks about the header only,
reading a body keeps it.
-/

set_option autoImplicit false

namespace AsioExamples.Chat

open AsioExamples.Cxx AsioExamples.Lib

/-- `chat_message::header_length` -/
def headerLength : ℕ := 4

/-- `chat_message::max_body_length` -/
def maxBodyLength : ℕ := 512

/-- `class chat_message` -/
structure ChatMessage where
  data_ : List UInt8
  bodyLength_ : ℕ
  size : data_.length = headerLength + maxBodyLength
  deriving DecidableEq, Repr

namespace ChatMessage

/-- The constructor. It leaves the bytes of the array as they are. -/
def new (data : List UInt8) (size : data.length = headerLength + maxBodyLength) : ChatMessage :=
  ⟨data, 0, size⟩

/-- `chat_message::length` -/
def length (m : ChatMessage) : ℕ := headerLength + m.bodyLength_

/-- The setter `chat_message::body_length`. -/
def setBodyLength (m : ChatMessage) (newLength : ℕ) : ChatMessage :=
  if newLength > maxBodyLength then { m with bodyLength_ := maxBodyLength }
  else { m with bodyLength_ := newLength }

/-- `chat_message::decode_header` -/
def decodeHeader (m : ChatMessage) : Bool × ChatMessage :=
  -- `strncat` copies up to a NUL, and a negative number is a large `size_t`
  let header := cStr (m.data_.take headerLength)
  let n := toSize (atoi header)
  if n > maxBodyLength then (false, { m with bodyLength_ := 0 })
  else (true, { m with bodyLength_ := n })

/-- Bytes stored at an offset of `data_`, as a read or a `memcpy` does. Nothing is stored where they
would not fit. -/
def store (m : ChatMessage) (offset : ℕ) (bytes : List UInt8) : ChatMessage :=
  if h : offset + bytes.length ≤ headerLength + maxBodyLength then
    { m with
      data_ := m.data_.take offset ++ bytes ++ m.data_.drop (offset + bytes.length)
      size := by
        have := m.size
        simp only [List.length_append, List.length_take, List.length_drop]
        omega }
  else m

/-- `chat_message::encode_header`. The local array has room for a text of four characters, which every
length up to `maxBodyLength` has. -/
def encodeHeader (m : ChatMessage) : ChatMessage :=
  m.store 0 ((sprintf4d (toInt m.bodyLength_)).take headerLength)

/-- The first four bytes of `data_`. -/
def header (m : ChatMessage) : List UInt8 := m.data_.take headerLength

/-- The `body_length()` bytes from `body()` on. -/
def body (m : ChatMessage) : List UInt8 := (m.data_.drop headerLength).take m.bodyLength_

/-- The `length()` bytes from `data()` on: what `do_write` gives to `async_write`. -/
def bytes (m : ChatMessage) : List UInt8 := m.data_.take m.length

end ChatMessage

/-! ## The header -/

/-- The body length that a header tells. -/
def headerValue (header : List UInt8) : Option ℕ :=
  let n := toSize (atoi (cStr header))
  if n > maxBodyLength then none else some n

/-- The framing of the chat protocol. -/
def framing : Framing UInt8 := ⟨headerLength, by decide, headerValue⟩

namespace ChatMessage

/-- The message as a frame. -/
def toFrame (m : ChatMessage) : Frame UInt8 := ⟨m.header, m.body⟩

@[simp] theorem body_toFrame (m : ChatMessage) : m.toFrame.body = m.body := rfl

theorem bytes_eq (m : ChatMessage) : m.bytes = m.toFrame.bytes := List.take_add

@[simp] theorem length_header (m : ChatMessage) : m.header.length = headerLength := by
  rw [header, List.length_take, m.size]
  decide

/-- `decode_header` reads the four header bytes and stores the value it finds there. -/
theorem decodeHeader_eq (m : ChatMessage) :
    m.decodeHeader =
      match headerValue m.header with
      | none => (false, { m with bodyLength_ := 0 })
      | some n => (true, { m with bodyLength_ := n }) := by
  by_cases h : toSize (atoi (cStr (m.data_.take headerLength))) > maxBodyLength
  · have hvalue : headerValue m.header = none := if_pos h
    rw [hvalue]
    exact if_pos h
  · have hvalue : headerValue m.header = some (toSize (atoi (cStr m.header))) := if_neg h
    rw [hvalue]
    exact if_neg h

/-- The header tells the stored length. -/
def Synced (m : ChatMessage) : Prop := headerValue m.header = some m.bodyLength_

theorem headerValue_le {header : List UInt8} {n : ℕ} (h : headerValue header = some n) :
    n ≤ maxBodyLength := by
  simp only [headerValue] at h
  split at h
  · cases h
  · cases h
    omega

theorem Synced.length_body {m : ChatMessage} (h : m.Synced) : m.body.length = m.bodyLength_ := by
  have hle := headerValue_le h
  have hsize := m.size
  simp only [body, List.length_take, List.length_drop, hsize]
  omega

/-- A message whose header tells its length is a well-formed frame. -/
theorem Synced.wellFormed {m : ChatMessage} (h : m.Synced) : framing.WellFormed m.toFrame :=
  ⟨m.length_header, h.trans (congrArg some h.length_body.symm)⟩

/-- Whoever reads the header of such a message finds its length. -/
theorem Synced.decodeHeader {m : ChatMessage} (h : m.Synced) {m' : ChatMessage}
    (hheader : m'.header = m.header) :
    m'.decodeHeader = (true, { m' with bodyLength_ := m.bodyLength_ }) := by
  have hvalue : headerValue m'.header = some m.bodyLength_ := hheader ▸ h
  rw [decodeHeader_eq, hvalue]

/-- Where `decode_header` returns true, header and stored length agree. -/
theorem synced_of_decodeHeader {m : ChatMessage} (h : m.decodeHeader.1 = true) :
    m.decodeHeader.2.Synced := by
  rw [decodeHeader_eq] at h ⊢
  cases hvalue : headerValue m.header with
  | none => simp [hvalue] at h
  | some n => exact hvalue

/-- A header that `encode_header` never writes: blanks, a sign, and a letter behind the digits. -/
example : headerValue (str " +7x") = some 7 := by decide +kernel

/-! ## Bytes stored in `data_` -/

theorem data_store {m : ChatMessage} {offset : ℕ} {bs : List UInt8}
    (h : offset + bs.length ≤ headerLength + maxBodyLength) :
    (m.store offset bs).data_ = m.data_.take offset ++ bs ++ m.data_.drop (offset + bs.length) := by
  rw [store, dif_pos h]

@[simp] theorem bodyLength_store (m : ChatMessage) (offset : ℕ) (bs : List UInt8) :
    (m.store offset bs).bodyLength_ = m.bodyLength_ := by
  rw [store]
  split <;> rfl

/-- Four bytes stored at `data()` are the header. -/
theorem header_store {m : ChatMessage} {bs : List UInt8} (h : bs.length = headerLength) :
    (m.store 0 bs).header = bs := by
  have hfits : 0 + bs.length ≤ headerLength + maxBodyLength := by
    rw [h]
    decide
  rw [header, data_store hfits, ← h]
  simp

/-- Bytes stored at `body()` leave the header alone. -/
@[simp] theorem header_store_body (m : ChatMessage) (bs : List UInt8) :
    (m.store headerLength bs).header = m.header := by
  by_cases h : headerLength + bs.length ≤ headerLength + maxBodyLength
  · -- the first four bytes of what is stored are those that were there
    have hlen : (m.data_.take headerLength).length = headerLength := m.length_header
    rw [header, data_store h, List.append_assoc, List.take_left' hlen]
    rfl
  · rw [store, dif_neg h]

/-- As many bytes as the body is long, stored at `body()`, are the body. -/
theorem body_store {m : ChatMessage} {bs : List UInt8} (h : bs.length = m.bodyLength_)
    (hle : m.bodyLength_ ≤ maxBodyLength) : (m.store headerLength bs).body = bs := by
  have hfits : headerLength + bs.length ≤ headerLength + maxBodyLength := by omega
  have hlen : (m.data_.take headerLength).length = headerLength := m.length_header
  rw [body, bodyLength_store, data_store hfits, List.append_assoc, List.drop_left' hlen,
    List.take_left' h]

/-- Four bytes stored at `data()` leave the body alone. -/
theorem body_store_header {m : ChatMessage} {bs : List UInt8} (h : bs.length = headerLength) :
    (m.store 0 bs).body = m.body := by
  have hfits : 0 + bs.length ≤ headerLength + maxBodyLength := by
    rw [h]
    decide
  rw [body, body, bodyLength_store, data_store hfits, List.take_zero, List.nil_append,
    List.drop_left' h, h, Nat.zero_add]

/-- Reading a body keeps header and stored length in agreement. -/
theorem Synced.store_body {m : ChatMessage} (h : m.Synced) (bs : List UInt8) :
    (m.store headerLength bs).Synced := by
  rw [Synced, header_store_body, bodyLength_store]
  exact h

/-! ## The header that is written -/

theorem bodyLength_setBodyLength (m : ChatMessage) (n : ℕ) :
    (m.setBodyLength n).bodyLength_ = min n maxBodyLength := by
  rw [setBodyLength]
  split
  · rename_i h
    exact (Nat.min_eq_right h.le).symm
  · rename_i h
    exact (Nat.min_eq_left (Nat.not_lt.1 h)).symm

/-- Every length that a message can have reads back from the text it is written as. -/
theorem headerValue_sprintf4d {n : ℕ} (h : n ≤ maxBodyLength) :
    headerValue (sprintf4d n) = some n := by
  have hsmall : n < 2 ^ 64 := by
    rw [maxBodyLength] at h
    omega
  have hstr : cStr (sprintf4d n) = sprintf4d n := cStr_sprintf4d n
  simp only [headerValue, hstr, atoi_sprintf4d, toSize_natCast hsmall]
  exact if_neg (by omega)

/-- The text of such a length fills the header. -/
theorem encodeHeader_eq {m : ChatMessage} (h : m.bodyLength_ ≤ maxBodyLength) :
    m.encodeHeader = m.store 0 (sprintf4d m.bodyLength_) ∧
      (sprintf4d m.bodyLength_).length = headerLength := by
  rw [maxBodyLength] at h
  have hlen : (sprintf4d m.bodyLength_).length = headerLength := length_sprintf4d (by omega)
  refine ⟨?_, hlen⟩
  rw [encodeHeader, toInt_of_lt (by omega), List.take_of_length_le hlen.le]

/-- **`encode_header` makes header and stored length agree**, and leaves the rest alone. -/
theorem encodeHeader_spec {m : ChatMessage} (h : m.bodyLength_ ≤ maxBodyLength) :
    m.encodeHeader.Synced ∧ m.encodeHeader.bodyLength_ = m.bodyLength_ ∧
      m.encodeHeader.body = m.body := by
  obtain ⟨heq, hlen⟩ := encodeHeader_eq h
  rw [heq, Synced, header_store hlen, bodyLength_store, body_store_header hlen]
  exact ⟨headerValue_sprintf4d h, rfl, rfl⟩

end ChatMessage

end AsioExamples.Chat
