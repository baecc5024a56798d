/-
  CqlClient formalization — the options of a cluster (`cql_cluster.hpp`).

  `option` gets an option, a pointer and a size.  It reads an `int` at the pointer
  before it looks at the option, so that also the pointer of a text has to point to
  four bytes.  When all calls can be read, every option is what its last call said,
  and the contact points are all that were added, in order (`options_iff`).
-/
import CqlClient.Decoding

namespace CqlClient

open Word Wire

@[simp] def cqlOptionThreadsIo : ℤ := 1
@[simp] def cqlOptionThreadsCallback : ℤ := 2
@[simp] def cqlOptionContactPointAdd : ℤ := 3
@[simp] def cqlOptionPort : ℤ := 4
@[simp] def cqlOptionCqlVersion : ℤ := 5
@[simp] def cqlOptionSchemaAgreementWait : ℤ := 6
@[simp] def cqlOptionControlConnectionTimeout : ℤ := 7
@[simp] def cqlOptionCompression : ℤ := 9

structure Cluster where
  port : List UInt8 := ascii "9042"
  cqlVersion : List UInt8 := ascii "3.0.0"
  compression : ℤ := 0
  maxSchemaAgreementWait : ℕ := 10
  controlConnectionTimeout : ℕ := 10
  contactPoints : List (List UInt8) := []
  threadCountIo : ℕ := 1
  threadCountCallback : ℕ := 4
  deriving DecidableEq, Repr

/-- The arguments of `option`; `value` is what can be read at the pointer. -/
structure OptionCall where
  option : ℤ
  value : List UInt8
  size : ℕ
  deriving DecidableEq, Repr

namespace Cluster

/-- `*reinterpret_cast<const int*>(value)`, on a little-endian host. -/
def readInt (value : List UInt8) : Except Crash ℤ := do
  let bytes ← read value 0 4
  return toInt32 (ofBigEndian bytes.reverse)

/-- `option`; an unknown option is ignored. -/
def option (call : OptionCall) (c : Cluster) : Except Crash Cluster := do
  let intValue ← readInt call.value
  if call.option = cqlOptionThreadsIo then return { c with threadCountIo := toSizeT intValue }
  else if call.option = cqlOptionThreadsCallback then
    return { c with threadCountCallback := toSizeT intValue }
  else if call.option = cqlOptionContactPointAdd then
    let point ← read call.value 0 call.size
    return { c with contactPoints := c.contactPoints ++ [point] }
  else if call.option = cqlOptionPort then
    let port ← read call.value 0 call.size
    return { c with port }
  else if call.option = cqlOptionCqlVersion then
    let cqlVersion ← read call.value 0 call.size
    return { c with cqlVersion }
  else if call.option = cqlOptionCompression then return { c with compression := intValue }
  else if call.option = cqlOptionControlConnectionTimeout then
    return { c with controlConnectionTimeout := toSizeT intValue }
  else if call.option = cqlOptionSchemaAgreementWait then
    return { c with maxSchemaAgreementWait := toSizeT intValue }
  else return c

/-- One call after another. -/
def options (calls : List OptionCall) (c : Cluster) : Except Crash Cluster :=
  calls.foldlM (fun c call => c.option call) c

/-! ## The configuration that the calls describe -/

end Cluster

namespace OptionCall

/-- The `int` at the pointer. -/
def int (call : OptionCall) : ℤ := toInt32 (ofBigEndian (call.value.take 4).reverse)

/-- The text at the pointer. -/
def text (call : OptionCall) : List UInt8 := call.value.take call.size

/-- Four bytes can be read at the pointer, and a text of the size if it is one. -/
structure Readable (call : OptionCall) : Prop where
  int : 4 ≤ call.value.length
  text : call.option = cqlOptionContactPointAdd ∨ call.option = cqlOptionPort ∨
    call.option = cqlOptionCqlVersion → call.size ≤ call.value.length

end OptionCall

namespace Cluster

/-- What the last call for an option says, or the default. -/
def lastOf {β : Type} (calls : List OptionCall) (option : ℤ) (f : OptionCall → β) (d : β) : β :=
  ((calls.reverse.find? fun call => call.option = option).map f).getD d

/-- Every option as its last call says, and all contact points in order. -/
def configured (calls : List OptionCall) : Cluster where
  port := lastOf calls cqlOptionPort OptionCall.text (ascii "9042")
  cqlVersion := lastOf calls cqlOptionCqlVersion OptionCall.text (ascii "3.0.0")
  compression := lastOf calls cqlOptionCompression OptionCall.int 0
  maxSchemaAgreementWait :=
    lastOf calls cqlOptionSchemaAgreementWait (fun call => toSizeT call.int) 10
  controlConnectionTimeout :=
    lastOf calls cqlOptionControlConnectionTimeout (fun call => toSizeT call.int) 10
  contactPoints :=
    (calls.filter fun call => call.option = cqlOptionContactPointAdd).map OptionCall.text
  threadCountIo := lastOf calls cqlOptionThreadsIo (fun call => toSizeT call.int) 1
  threadCountCallback := lastOf calls cqlOptionThreadsCallback (fun call => toSizeT call.int) 4

theorem lastOf_concat {β : Type} (calls : List OptionCall) (call : OptionCall) (option : ℤ)
    (f : OptionCall → β) (d : β) : lastOf (calls ++ [call]) option f d =
      if call.option = option then f call else lastOf calls option f d := by
  rw [lastOf, List.reverse_concat, List.find?_cons]
  by_cases h : call.option = option
  · simp [h]
  · simp [h, lastOf]

/-! ## One call -/

variable {call : OptionCall} {c c' : Cluster}

theorem read_eq (value : List UInt8) (n : ℕ) : read value 0 n =
    if n ≤ value.length then .ok (value.take n) else .error .outOfBounds := by
  simp [read]

theorem readInt_eq (call : OptionCall) : readInt call.value =
    if 4 ≤ call.value.length then .ok call.int else .error .outOfBounds := by
  rw [readInt, read_eq]
  split <;> rfl

/-- What a call assigns. -/
def assign (call : OptionCall) (c : Cluster) : Cluster where
  port := if call.option = cqlOptionPort then call.text else c.port
  cqlVersion := if call.option = cqlOptionCqlVersion then call.text else c.cqlVersion
  compression := if call.option = cqlOptionCompression then call.int else c.compression
  maxSchemaAgreementWait :=
    if call.option = cqlOptionSchemaAgreementWait then toSizeT call.int
    else c.maxSchemaAgreementWait
  controlConnectionTimeout :=
    if call.option = cqlOptionControlConnectionTimeout then toSizeT call.int
    else c.controlConnectionTimeout
  contactPoints :=
    if call.option = cqlOptionContactPointAdd then c.contactPoints ++ [call.text]
    else c.contactPoints
  threadCountIo := if call.option = cqlOptionThreadsIo then toSizeT call.int else c.threadCountIo
  threadCountCallback :=
    if call.option = cqlOptionThreadsCallback then toSizeT call.int else c.threadCountCallback

/-- The option takes a text. -/
def takesText (option : ℤ) : Prop :=
  option = cqlOptionContactPointAdd ∨ option = cqlOptionPort ∨ option = cqlOptionCqlVersion

instance (option : ℤ) : Decidable (takesText option) := inferInstanceAs (Decidable (_ ∨ _ ∨ _))

theorem assign_int (hint : 4 ≤ call.value.length) (hno : ¬ takesText call.option)
    {d : Cluster} (hd : assign call c = d) :
    (pure d : Except Crash Cluster) = .ok c' ↔ call.Readable ∧ c' = assign call c := by
  subst hd
  constructor
  · intro h
    exact ⟨⟨hint, fun htext => absurd htext hno⟩, (Except.ok.inj h).symm⟩
  · rintro ⟨-, rfl⟩
    rfl

theorem assign_text (hint : 4 ≤ call.value.length) (htext : takesText call.option)
    {f : List UInt8 → Cluster} (hf : assign call c = f call.text) :
    (do let text ← read call.value 0 call.size; return f text : Except Crash Cluster) = .ok c' ↔
      call.Readable ∧ c' = assign call c := by
  rw [read_eq]
  split
  · rename_i hsize
    change Except.ok (f call.text) = .ok c' ↔ _
    rw [← hf]
    constructor
    · intro h
      exact ⟨⟨hint, fun _ => hsize⟩, (Except.ok.inj h).symm⟩
    · rintro ⟨-, rfl⟩
      rfl
  · rename_i hsize
    constructor
    · intro h
      cases h
    · rintro ⟨hread, -⟩
      exact absurd (hread.text htext) hsize

/-- **One call** reads four bytes and its text, and assigns one option. -/
theorem option_iff : c.option call = .ok c' ↔ call.Readable ∧ c' = assign call c := by
  unfold option
  rw [readInt_eq]
  split
  swap
  · rename_i hint
    constructor
    · intro h
      cases h
    · rintro ⟨hread, -⟩
      exact absurd hread.int hint
  rename_i hint
  rw [ok_bind]
  obtain ⟨option, value, size⟩ := call
  simp only
  split_ifs with h₁ h₂ h₃ h₄ h₅ h₆ h₇ h₈
  · subst h₁
    have hno : ¬ takesText cqlOptionThreadsIo := by decide
    exact assign_int hint hno (by simp [assign])
  · subst h₂
    have hno : ¬ takesText cqlOptionThreadsCallback := by decide
    exact assign_int hint hno (by simp [assign])
  · subst h₃
    exact assign_text hint (.inl rfl) (by simp [assign])
  · subst h₄
    exact assign_text hint (.inr (.inl rfl)) (by simp [assign])
  · subst h₅
    exact assign_text hint (.inr (.inr rfl)) (by simp [assign])
  · subst h₆
    have hno : ¬ takesText cqlOptionCompression := by decide
    exact assign_int hint hno (by simp [assign])
  · subst h₇
    have hno : ¬ takesText cqlOptionControlConnectionTimeout := by decide
    exact assign_int hint hno (by simp [assign])
  · subst h₈
    have hno : ¬ takesText cqlOptionSchemaAgreementWait := by decide
    exact assign_int hint hno (by simp [assign])
  · have hsame : assign ⟨option, value, size⟩ c = c := by
      simp only [assign, if_neg h₁, if_neg h₂, if_neg h₃, if_neg h₄, if_neg h₅, if_neg h₆,
        if_neg h₇, if_neg h₈]
    have hno : ¬ takesText (OptionCall.mk option value size).option := by
      rintro (h | h | h)
      · exact h₃ h
      · exact h₄ h
      · exact h₅ h
    exact assign_int hint hno hsame

theorem configured_concat (calls : List OptionCall) (call : OptionCall) :
    configured (calls ++ [call]) = assign call (configured calls) := by
  simp only [configured, assign, lastOf_concat, List.filter_append, List.map_append]
  by_cases h : call.option = cqlOptionContactPointAdd
  · rw [if_pos h, List.filter_singleton, decide_eq_true h]
    rfl
  · rw [if_neg h, List.filter_singleton, decide_eq_false h]
    simp only [cond_false, List.map_nil, List.append_nil]

/-- **The options of a cluster**: the calls return just if all of them can be read, and
    then every option is as its last call says. -/
theorem options_iff (calls : List OptionCall) (c : Cluster) :
    ({} : Cluster).options calls = .ok c ↔
      (∀ call ∈ calls, call.Readable) ∧ c = configured calls := by
  induction calls using List.reverseRecOn generalizing c with
  | nil =>
    change Except.ok ({} : Cluster) = .ok c ↔ _
    simp [configured, lastOf, eq_comm]
  | append_singleton calls call ih =>
    have hstep : ({} : Cluster).options (calls ++ [call]) =
        ({} : Cluster).options calls >>= fun c => c.option call := by
      simp [options, List.foldlM_append]
    rw [hstep, configured_concat]
    constructor
    · intro h
      obtain ⟨c₁, hcalls, hcall⟩ := bind_eq_ok h
      obtain ⟨hall, rfl⟩ := (ih c₁).1 hcalls
      obtain ⟨hread, rfl⟩ := option_iff.1 hcall
      refine ⟨?_, rfl⟩
      intro call' hmem
      rcases List.mem_append.1 hmem with hmem | hmem
      · exact hall call' hmem
      · rwa [List.mem_singleton.1 hmem]
    · rintro ⟨hall, rfl⟩
      have hcalls := (ih (configured calls)).2
        ⟨fun call' hmem => hall call' (List.mem_append_left _ hmem), rfl⟩
      rw [hcalls, ok_bind]
      exact option_iff.2 ⟨hall call (by simp), rfl⟩

end Cluster

end CqlClient
