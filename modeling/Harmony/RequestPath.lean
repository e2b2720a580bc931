import Harmony.PercentDecode
import Harmony.Router

/-!
# The path of a request

`parse_path` cuts the `:path` of a request at the first question mark and decodes
both parts, but only if there is a percent sign in them. The router then asserts
that a path starts with a slash, at the root and at every node below.

Skipping the decoding is right for a part without a plus
(`parsePath_eq_iff`). And nothing makes sure of the slash: a request for `*`, or
for nothing but a query, gets to the router as it is (`startsWithSlash_iff`).
-/

/-- What `parse_path` cuts: the header, or the bare slash. -/
def reqpath (header : Option Bytes) : Bytes :=
  if header.getD [slash] = [] then [slash] else header.getD [slash]

/-- What is in front of the first question mark. -/
def rawPath (header : Option Bytes) : Bytes :=
  (reqpath header).takeWhile (· ≠ 63)

/-- The rest, from the question mark on. -/
def rawQuery (header : Option Bytes) : Bytes :=
  (reqpath header).dropWhile (· ≠ 63)

theorem parsePath_eq (header : Option Bytes) :
    parsePath header
      = (if 37 ∈ rawPath header then percentDecode (rawPath header)
          else rawPath header,
        if 37 ∈ rawQuery header then percentDecode (rawQuery header)
          else rawQuery header) := rfl

/-! ## When decoding may be skipped -/

/-- Without escapes, decoding changes nothing but a plus. -/
theorem percentDecode_eq_self_iff {s : Bytes} (h : 37 ∉ s) :
    percentDecode s = s ↔ 43 ∉ s := by
  induction s with
  | nil => exact iff_of_true rfl List.not_mem_nil
  | cons c rest ih =>
    rw [List.mem_cons, not_or] at h
    by_cases hplus : c = 43
    · subst hplus
      rw [percentDecode_plus]
      exact iff_of_false (fun heq => absurd (List.cons.inj heq).1 (by decide))
        (fun hmem => hmem List.mem_cons_self)
    · rw [percentDecode_plain rest (Ne.symm h.1) hplus, List.cons.injEq,
        and_iff_right rfl, ih h.2, List.mem_cons, not_or]
      exact (and_iff_right (Ne.symm hplus)).symm

/-- A part that is decoded if it has an escape is decoded right. -/
theorem decoded_iff (s : Bytes) :
    (if 37 ∈ s then percentDecode s else s) = percentDecode s
      ↔ 37 ∈ s ∨ 43 ∉ s := by
  by_cases h : 37 ∈ s
  · rw [if_pos h]
    exact iff_of_true rfl (Or.inl h)
  · rw [if_neg h, eq_comm, percentDecode_eq_self_iff h]
    exact (or_iff_right h).symm

/-- **The shortcut agrees with decoding exactly where a part has a percent sign
or no plus.** -/
theorem parsePath_eq_iff (header : Option Bytes) :
    parsePath header
        = (percentDecode (rawPath header), percentDecode (rawQuery header))
      ↔ (37 ∈ rawPath header ∨ 43 ∉ rawPath header)
        ∧ (37 ∈ rawQuery header ∨ 43 ∉ rawQuery header) := by
  rw [parsePath_eq, Prod.mk.injEq, decoded_iff, decoded_iff]

/-- **A plus is a plus or a space**, depending on the rest of the path. -/
theorem plus_not_parsePath_eq :
    ¬ ∀ header, parsePath header
      = (percentDecode (rawPath header), percentDecode (rawQuery header)) := by
  intro h
  have hplus := congrArg Prod.fst (h (some (bytes "/a+b")))
  exact absurd hplus (by decide +kernel)

/-! ## The slash in front -/

/-- **The path starts with a slash**, so that the assertion of the router holds
at every node of every tree that the path is matched with. -/
def StartsWithSlash (header : Option Bytes) : Prop :=
  (parsePath header).1.head? = some slash ∧
    ∀ (n : RouteNode) (m : HttpMethod) (vars : List Bytes),
      ∃ r, n.matchPath m (parsePath header).1 vars = .ok r

/-- **There is a slash in front**, plain, or as an escape, or behind a percent
sign that is cut off. -/
def SlashInFront (s : Bytes) : Prop :=
  s.head? = some slash
    ∨ (∃ a b rest, s = 37 :: a :: b :: rest
      ∧ fromHex a <<< 4 ||| fromHex b = slash)
    ∨ s = [37, slash]

/-- Where nothing is decoded, the slash has to be plain. -/
theorem slashInFront_iff {s : Bytes} (h : 37 ∉ s) :
    SlashInFront s ↔ s.head? = some slash := by
  refine or_iff_left ?_
  rintro (⟨a, b, rest, rfl, -⟩ | rfl)
  · exact h List.mem_cons_self
  · exact h List.mem_cons_self

/-- A byte that is no percent sign starts the decoded text with a slash if it is
one. -/
theorem head_percentDecode_cons {c : UInt8} (rest : Bytes) (h : c ≠ 37) :
    (percentDecode (c :: rest)).head? = some slash ↔ c = slash := by
  by_cases hplus : c = 43
  · subst hplus
    rw [percentDecode_plus, List.head?_cons, Option.some.injEq]
    decide
  · rw [percentDecode_plain rest h hplus, List.head?_cons, Option.some.injEq]

/-- **What is decoded starts with a slash** if the text does in one of these
ways. -/
theorem head_percentDecode_iff (s : Bytes) :
    (percentDecode s).head? = some slash ↔ SlashInFront s := by
  cases s with
  | nil => simp [SlashInFront, percentDecode]
  | cons c rest =>
    by_cases hc : c = 37
    · subst hc
      rcases rest with _ | ⟨x, _ | ⟨b, rest⟩⟩
      · simp [SlashInFront, percentDecode, slash]
      · rw [percentDecode_cut [x] Nat.one_lt_two]
        by_cases hx : x = 37
        · subst hx
          simp [SlashInFront, percentDecode, slash]
        · rw [head_percentDecode_cons [] hx]
          simp [SlashInFront, slash]
      · rw [percentDecode_escape]
        simp [SlashInFront, slash]
    · rw [head_percentDecode_cons rest hc]
      simp [SlashInFront, hc]

/-- **The path starts with a slash exactly where there is one in front of the
part before the question mark.** -/
theorem startsWithSlash_iff (header : Option Bytes) :
    StartsWithSlash header ↔ SlashInFront (rawPath header) := by
  have hhead : (parsePath header).1.head? = some slash
      ↔ SlashInFront (rawPath header) := by
    rw [parsePath_eq]
    by_cases hpercent : 37 ∈ rawPath header
    · simp only [if_pos hpercent]
      exact head_percentDecode_iff _
    · simp only [if_neg hpercent]
      exact (slashInFront_iff hpercent).symm
  rw [StartsWithSlash, ← hhead]
  refine and_iff_left_of_imp fun hslash n m vars => ?_
  obtain ⟨rest, hrest⟩ := List.head?_eq_some_iff.mp hslash
  rw [hrest]
  exact ⟨_, RouteNode.matchPath_eq n m rest vars⟩

/-- **A request for the server itself stops it.** -/
theorem star_not_startsWithSlash : ¬ ∀ header, StartsWithSlash header := by
  intro h
  exact absurd (h (some (bytes "*"))).1 (by decide +kernel)
