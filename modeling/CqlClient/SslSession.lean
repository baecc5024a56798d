/-
  CqlClient formalization — the SSL session (`cql_ssl_session.hpp`).

  OpenSSL is a parameter: `OpenSsl σ` are the functions that the session calls,
  over a state `σ` of the SSL object and its BIOs.  `read_write` passes bytes
  from the network in, takes application bytes and bytes for the network out,
  and stops at the first call that `SSL_get_error` reports as an error.
-/
import CqlClient.Basic

namespace CqlClient

open Word

/-- The BIO of the application's side, and that of the network's side. -/
inductive Bio where
  | ssl
  | network
  deriving DecidableEq, Repr

/-- The functions of OpenSSL that the session calls. -/
structure OpenSsl (σ : Type) where
  /-- `BIO_ctrl_pending` -/
  pending : Bio → σ → ℕ
  /-- `BIO_get_write_guarantee(network_bio)` -/
  writeGuarantee : σ → ℕ
  /-- `BIO_read` of at most so many bytes: the bytes it placed, and its value -/
  read : Bio → ℕ → σ → σ × List UInt8 × ℤ
  /-- `BIO_write` -/
  write : Bio → List UInt8 → σ → σ × ℤ
  /-- `SSL_get_error` -/
  getError : ℤ → σ → ℤ
  /-- `ERR_error_string_n` -/
  errorString : ℤ → List UInt8
  /-- `SSL_is_init_finished` -/
  isInitFinished : σ → Bool

def sslErrorNone : ℤ := 0
def sslErrorWantRead : ℤ := 2

/-- What the out parameters of `read_write` hold: a buffer is its length and the
    bytes placed in it. -/
structure ReadWrite where
  readSize : ℕ := 0
  readOutput : Option (ℕ × List UInt8) := none
  readOutputSize : ℕ := 0
  writeOutput : Option (ℕ × List UInt8) := none
  writeOutputSize : ℕ := 0
  deriving DecidableEq, Repr

namespace OpenSsl
variable {σ : Type} (api : OpenSsl σ)

/-- `CQL_SSL_CHECK_ERROR`: the error that is returned, if any. -/
def checkError (input : ℤ) (s : σ) : Option Error :=
  let err := api.getError input s
  if err ≠ sslErrorNone ∧ err ≠ sslErrorWantRead then
    some ⟨cqlErrorSourceSsl, err, api.errorString err⟩
  else none

/-- The application bytes to send. -/
def writeApplication (writeInput : List UInt8) (s : σ) : σ × Option Error :=
  if writeInput.length ≠ 0 then
    let (s, status) := api.write .ssl writeInput s
    (s, api.checkError status s)
  else (s, none)

/-- The application bytes that were received. -/
def readApplication (out : ReadWrite) (s : σ) : σ × ReadWrite × Option Error :=
  let pending := api.pending .ssl s
  if pending ≠ 0 then
    let (s, bytes, n) := api.read .ssl pending s
    let out := { out with readOutput := some (pending, bytes), readOutputSize := toSizeT n }
    (s, out, api.checkError (toInt32 out.readOutputSize) s)
  else (s, out, none)

/-- The bytes from the network. -/
def writeNetwork (readInput : List UInt8) (out : ReadWrite) (s : σ) :
    σ × ReadWrite × Option Error :=
  if 0 < readInput.length then
    let guarantee := api.writeGuarantee s
    if guarantee ≠ 0 then
      let out := { out with readSize := min guarantee readInput.length }
      let (s, status) := api.write .network (readInput.take out.readSize) s
      (s, out, api.checkError status s)
    else (s, { out with readSize := 0 }, none)
  else (s, { out with readSize := 0 }, none)

/-- The bytes for the network. -/
def readNetwork (out : ReadWrite) (s : σ) : σ × ReadWrite × Option Error :=
  let size := api.pending .network s
  let out := { out with writeOutputSize := size }
  if size ≠ 0 then
    let (s, bytes, n) := api.read .network size s
    (s, { out with writeOutput := some (size, bytes) }, api.checkError n s)
  else (s, out, none)

/-- `read_write`. -/
def readWrite (readInput writeInput : List UInt8) (s : σ) : σ × ReadWrite × Option Error :=
  match api.writeApplication writeInput s with
  | (s, some e) => (s, {}, some e)
  | (s, none) =>
    match api.readApplication {} s with
    | (s, out, some e) => (s, out, some e)
    | (s, out, none) =>
      match api.writeNetwork readInput out s with
      | (s, out, some e) => (s, out, some e)
      | (s, out, none) => api.readNetwork out s

/-! ## The steps, case by case -/

section
variable {api} {s : σ} {readInput : List UInt8}

theorem readApplication_idle (h : api.pending .ssl s = 0) (out : ReadWrite) :
    api.readApplication out s = (s, out, none) := if_neg (not_not.2 h)

theorem readApplication_pending (h : api.pending .ssl s ≠ 0) (out : ReadWrite) :
    api.readApplication out s =
      ((api.read .ssl (api.pending .ssl s) s).1,
        { out with
          readOutput := some (api.pending .ssl s, (api.read .ssl (api.pending .ssl s) s).2.1)
          readOutputSize := toSizeT (api.read .ssl (api.pending .ssl s) s).2.2 },
        api.checkError (toInt32 (toSizeT (api.read .ssl (api.pending .ssl s) s).2.2))
          (api.read .ssl (api.pending .ssl s) s).1) := if_pos h

theorem writeNetwork_idle (h : readInput = [] ∨ api.writeGuarantee s = 0) (out : ReadWrite) :
    api.writeNetwork readInput out s = (s, { out with readSize := 0 }, none) := by
  unfold writeNetwork
  rcases h with rfl | h
  · rfl
  · simp [h]

theorem writeNetwork_room (hinput : readInput ≠ []) (hroom : api.writeGuarantee s ≠ 0)
    (out : ReadWrite) :
    api.writeNetwork readInput out s =
      ((api.write .network (readInput.take (min (api.writeGuarantee s) readInput.length)) s).1,
        { out with readSize := min (api.writeGuarantee s) readInput.length },
        api.checkError
          (api.write .network (readInput.take (min (api.writeGuarantee s) readInput.length)) s).2
          (api.write .network
            (readInput.take (min (api.writeGuarantee s) readInput.length)) s).1) := by
  unfold writeNetwork
  rw [if_pos (List.length_pos_iff.2 hinput)]
  exact if_pos hroom

theorem readNetwork_idle (h : api.pending .network s = 0) (out : ReadWrite) :
    api.readNetwork out s = (s, { out with writeOutputSize := 0 }, none) := by
  unfold readNetwork
  rw [h]
  rfl

theorem readNetwork_pending (h : api.pending .network s ≠ 0) (out : ReadWrite) :
    api.readNetwork out s =
      ((api.read .network (api.pending .network s) s).1,
        { out with
          writeOutput :=
            some (api.pending .network s, (api.read .network (api.pending .network s) s).2.1)
          writeOutputSize := api.pending .network s },
        api.checkError (api.read .network (api.pending .network s) s).2.2
          (api.read .network (api.pending .network s) s).1) := if_pos h

end

end OpenSsl

end CqlClient
