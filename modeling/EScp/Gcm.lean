import Mathlib.Data.List.Basic
import Mathlib.Data.UInt

/-!
# Counter mode with a tag, in updates

A message is encrypted or decrypted in any number of updates, which mask it with a stream of bytes
that depends on the nonce alone.  The tag depends on the nonce, on the associated data and on the
whole ciphertext.  One `Gcm` stands for the mode under one key.
-/

namespace EScp

/-- The mode under one key. -/
structure Gcm where
  keystream : List UInt8 → Nat → UInt8
  tag : List UInt8 → List UInt8 → List UInt8 → List UInt8
  length_tag : ∀ nonce aad ciphertext, (tag nonce aad ciphertext).length = 16

namespace Gcm

/-- A message in progress. -/
structure Context where
  nonce : List UInt8
  aad : List UInt8
  /-- The ciphertext so far. -/
  ciphertext : List UInt8

/-- `aes_gcm_init`. -/
def init (nonce aad : List UInt8) : Context := ⟨nonce, aad, []⟩

variable (gcm : Gcm)

/-- The text under the part of the stream that comes next. -/
def mask (context : Context) (text : List UInt8) : List UInt8 :=
  text.mapIdx fun index byte =>
    byte ^^^ gcm.keystream context.nonce (context.ciphertext.length + index)

/-- `aes_gcm_enc_update`. -/
def encUpdate (context : Context) (text : List UInt8) : Context × List UInt8 :=
  ({ context with ciphertext := context.ciphertext ++ gcm.mask context text },
    gcm.mask context text)

/-- `aes_gcm_dec_update`. -/
def decUpdate (context : Context) (masked : List UInt8) : Context × List UInt8 :=
  ({ context with ciphertext := context.ciphertext ++ masked }, gcm.mask context masked)

/-- `aes_gcm_dec_finalize`, which computes the tag like `aes_gcm_enc_finalize`. -/
def finalize (context : Context) : List UInt8 :=
  gcm.tag context.nonce context.aad context.ciphertext

variable {gcm} (context : Context) (text : List UInt8)

@[simp] theorem length_mask : (gcm.mask context text).length = text.length := by
  simp [mask]

@[simp] theorem length_encUpdate : (gcm.encUpdate context text).2.length = text.length :=
  length_mask context text

@[simp] theorem length_finalize : (gcm.finalize context).length = 16 := gcm.length_tag _ _ _

@[simp] theorem mask_nil : gcm.mask context [] = [] := rfl

theorem mask_mask : gcm.mask context (gcm.mask context text) = text := by
  apply List.ext_getElem (by simp)
  intro index low high
  simp [mask, UInt8.xor_assoc]

/-- Decryption undoes encryption and leaves the context where encryption has left it. -/
theorem decUpdate_encUpdate :
    gcm.decUpdate context (gcm.encUpdate context text).2 =
      ((gcm.encUpdate context text).1, text) := by
  simp only [decUpdate, encUpdate, mask_mask]

/-- A message in two parts: the ciphertext. -/
def encrypt (gcm : Gcm) (nonce aad head body : List UInt8) : List UInt8 :=
  let opened := gcm.encUpdate (init nonce aad) head
  opened.2 ++ (gcm.encUpdate opened.1 body).2

theorem finalize_encUpdate (nonce aad head body : List UInt8) :
    gcm.finalize (gcm.encUpdate (gcm.encUpdate (init nonce aad) head).1 body).1 =
      gcm.tag nonce aad (gcm.encrypt nonce aad head body) := by
  simp [finalize, encUpdate, encrypt, init]

/-- What is masked in two updates is masked in one. -/
theorem mask_append {first second masked : List UInt8}
    (same_length : masked.length = first.length) :
    gcm.mask context (first ++ second) = gcm.mask context first ++
      gcm.mask { context with ciphertext := context.ciphertext ++ masked } second := by
  simp only [mask, List.mapIdx_append, List.length_append, same_length]
  congr 2
  funext index byte
  congr 2
  omega

theorem encrypt_eq (nonce aad head body : List UInt8) :
    gcm.encrypt nonce aad head body = gcm.mask (init nonce aad) (head ++ body) :=
  (mask_append _ (length_mask _ _)).symm

/-- The parts that are decrypted make up the plaintext of the whole ciphertext. -/
theorem decUpdate_append (first second : List UInt8) :
    (gcm.decUpdate context first).2 ++
        (gcm.decUpdate (gcm.decUpdate context first).1 second).2 =
      gcm.mask context (first ++ second) :=
  (mask_append _ rfl).symm

end Gcm
end EScp
