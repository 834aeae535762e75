import Mathlib.Data.List.Basic

/-!
# Base64

Encoding of bytes in an alphabet of 64 characters, six bits a character.
-/

namespace AgentOrchestrator.Base64

/-- The standard alphabet. -/
def standard : List Char :=
  "ABCDEFGHIJKLMNOPQRSTUVWXYZabcdefghijklmnopqrstuvwxyz0123456789+/".toList

/-- The alphabet for URLs. -/
def url : List Char :=
  "ABCDEFGHIJKLMNOPQRSTUVWXYZabcdefghijklmnopqrstuvwxyz0123456789-_".toList

/-- The six-bit groups of bytes; the last group is filled up with zeros. -/
def sextets : List ℕ → List ℕ
  | [] => []
  | [a] => [a / 4, a % 4 * 16]
  | [a, b] => [a / 4, a % 4 * 16 + b / 16, b % 16 * 4]
  | a :: b :: c :: bytes =>
    a / 4 :: (a % 4 * 16 + b / 16) :: (b % 16 * 4 + c / 64) :: c % 64 :: sextets bytes

/-- The bytes in the alphabet, without padding. -/
def encode (alphabet : List Char) (bytes : List ℕ) : List Char :=
  (sextets bytes).map fun n => alphabet.getD n 'A'

/-- The encoding filled up to a multiple of four characters. -/
def padded (alphabet : List Char) (bytes : List ℕ) : List Char :=
  let text := encode alphabet bytes
  text ++ List.replicate ((4 - text.length % 4) % 4) '='

/-! ## Decoding -/

/-- The value of a character; both alphabets are read. -/
def value (c : Char) : Option ℕ :=
  let n := c.toNat
  if 65 ≤ n ∧ n ≤ 90 then some (n - 65)
  else if 97 ≤ n ∧ n ≤ 122 then some (n - 71)
  else if 48 ≤ n ∧ n ≤ 57 then some (n + 4)
  else if c = '-' ∨ c = '+' then some 62
  else if c = '_' ∨ c = '/' then some 63
  else none

/-- The bytes of six-bit groups; bits that do not fill a byte are dropped. -/
def bytes : List ℕ → List ℕ
  | a :: b :: c :: d :: rest =>
    (a * 4 + b / 16) :: (b % 16 * 16 + c / 4) :: (c % 4 * 64 + d) :: bytes rest
  | [a, b, c] => [a * 4 + b / 16, b % 16 * 16 + c / 4]
  | [a, b] => [a * 4 + b / 16]
  | _ => []

/-- The bytes of a text; characters of neither alphabet are skipped. -/
def decode (text : List Char) : List ℕ := bytes (text.filterMap value)

theorem value_url : ∀ n < 64, value (url.getD n 'A') = some n := by decide +kernel

theorem sextets_lt {l : List ℕ} (h : ∀ b ∈ l, b < 256) : ∀ n ∈ sextets l, n < 64 := by
  induction l using sextets.induct with
  | case1 => exact fun _ => (nomatch ·)
  | case2 a =>
    have ha := h a (by simp)
    simp only [sextets, List.mem_cons, List.not_mem_nil, or_false, forall_eq_or_imp, forall_eq]
    omega
  | case3 a b =>
    have ha := h a (by simp)
    have hb := h b (by simp)
    simp only [sextets, List.mem_cons, List.not_mem_nil, or_false, forall_eq_or_imp, forall_eq]
    omega
  | case4 a b c rest ih =>
    have ha := h a (by simp)
    have hb := h b (by simp)
    have hc := h c (by simp)
    simp only [sextets, List.mem_cons, forall_eq_or_imp]
    refine ⟨by omega, by omega, by omega, by omega, ?_⟩
    exact ih fun x hx => h x (by simp [hx])

theorem bytes_sextets {l : List ℕ} (h : ∀ b ∈ l, b < 256) : bytes (sextets l) = l := by
  induction l using sextets.induct with
  | case1 => rfl
  | case2 a =>
    have ha := h a (by simp)
    simp only [sextets, bytes, List.cons.injEq, and_true]
    omega
  | case3 a b =>
    have ha := h a (by simp)
    have hb := h b (by simp)
    simp only [sextets, bytes, List.cons.injEq, and_true]
    omega
  | case4 a b c rest ih =>
    have ha := h a (by simp)
    have hb := h b (by simp)
    have hc := h c (by simp)
    simp only [sextets, bytes, List.cons.injEq]
    refine ⟨by omega, by omega, by omega, ?_⟩
    exact ih fun x hx => h x (by simp [hx])

/-- Decoding inverts the encoding for URLs. -/
theorem decode_encode {l : List ℕ} (h : ∀ b ∈ l, b < 256) : decode (encode url l) = l := by
  have hvalues : ∀ ns : List ℕ, (∀ n ∈ ns, n < 64) →
      (ns.map fun n => url.getD n 'A').filterMap value = ns := by
    intro ns hns
    induction ns with
    | nil => rfl
    | cons n ns ih =>
      rw [List.map_cons, List.filterMap_cons, value_url n (hns n List.mem_cons_self),
        ih fun m hm => hns m (List.mem_cons_of_mem n hm)]
  unfold decode encode
  rw [hvalues _ (sextets_lt h), bytes_sextets h]

end AgentOrchestrator.Base64
