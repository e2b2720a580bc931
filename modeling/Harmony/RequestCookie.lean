import Harmony.Cookie
import Harmony.HeaderNames

/-!
# The cookies of a request

A client may spread its cookies over several `cookie` fields, and HTTP/2 even
encourages it to. `HttpRequest::get_cookie` asks `get_header` for one of them,
which is the first one that was stored, and looks for the cookie there. The
cookies of all the other fields are not found.

Of those in the first field, `util::get_cookie` finds the right value only where
it reads it to the end of the field (`RequestHeaders.findsPair_iff`).
-/

open StringView Cookie

/-! ## Looking up a field -/

/-- A name that is known is the known name, up to case. -/
theorem streqL_of_lookupHeader {name : Bytes} {header : HttpHeader}
    (h : lookupHeader name = header) (hfound : header ≠ .notFound) :
    ∃ known, (known, header) ∈ headerNames ∧ streqL known name = true := by
  subst h
  obtain ⟨known, hknown, hspells⟩ :=
    (inTable_lookupHeader name).resolve_left hfound
  exact ⟨known, hknown, hspells.same⟩

/-- The name of the field of the cookies. -/
def cookieName : Bytes := bytes "cookie"

/-- Whether a field is one of the cookies. -/
def isCookie (f : HeaderField) : Bool := streqL cookieName f.1

/-- **The field of the cookies has no place of its own.** -/
theorem lookupHeader_of_isCookie {f : HeaderField} (h : isCookie f = true) :
    lookupHeader f.1 = .cookie ∨ lookupHeader f.1 = .notFound := by
  refine or_iff_not_imp_right.mpr fun hfound => ?_
  obtain ⟨known, hknown, hname⟩ := streqL_of_lookupHeader rfl hfound
  have hsame : known.map toLower = cookieName.map toLower := by
    rw [(streqL_iff known f.1).mp hname, (streqL_iff cookieName f.1).mp h]
  have honly : ∀ p ∈ headerNames, p.1.map toLower = cookieName.map toLower →
      p.2 = .cookie := by decide
  exact honly (known, lookupHeader f.1) hknown hsame

namespace RequestHeaders

/-- The fields without a place of their own. -/
def others (h : RequestHeaders) : List HeaderField := h.nva ++ h.additional

theorem others_addOther (h : RequestHeaders) (f : HeaderField) :
    (h.addOther f).others = h.others ++ [f] := by
  unfold addOther others
  split_ifs with hroom
  · dsimp only
    rw [h.additional_eq_nil hroom, List.append_nil, List.append_nil]
  · exact (List.append_assoc _ _ _).symm

/-- A name without a place of its own is looked up in the array and then in
the vector. -/
theorem getHeader_others (h : RequestHeaders) {name : Bytes}
    (hexpect : streqL name (bytes "expect") = false)
    (hims : streqL name (bytes "if-modified-since") = false) :
    h.getHeader name
      = (h.others.find? fun f => streqL name f.1).map Prod.snd := by
  unfold getHeader others
  rw [hexpect, hims, if_neg Bool.false_ne_true, if_neg Bool.false_ne_true,
    List.find?_append]
  cases h.nva.find? fun f => streqL name f.1 with
  | some f => rfl
  | none =>
    rw [Option.none_or]
    by_cases hfull : h.nva.length = maxNvaLen
    · exact if_pos hfull
    · rw [h.additional_eq_nil (lt_of_le_of_ne h.nva_le hfull)]
      exact if_neg hfull

/-- The first field of the cookies that was stored. -/
theorem getHeader_cookie (h : RequestHeaders) :
    h.getHeader cookieName = (h.others.find? isCookie).map Prod.snd :=
  h.getHeader_others (by decide) (by decide)

/-- **Storing a field** keeps the fields of the cookies in their order. -/
theorem filter_addHeader (h : RequestHeaders) (f : HeaderField) :
    (h.addHeader f).others.filter isCookie
      = h.others.filter isCookie ++ [f].filter isCookie := by
  by_cases hcookie : isCookie f = true
  · have hother : h.addHeader f = h.addOther f := by
      unfold addHeader
      rcases lookupHeader_of_isCookie hcookie with hfound | hfound
      · rw [hfound]
      · rw [hfound]
    rw [hother, others_addOther, List.filter_append]
  · rw [List.filter_cons_of_neg hcookie, List.filter_nil, List.append_nil]
    unfold addHeader
    split
    case h_8 =>
      rw [others_addOther, List.filter_append, List.filter_cons_of_neg hcookie,
        List.filter_nil, List.append_nil]
    all_goals rfl

/-- **`HttpRequest::get_cookie`.** -/
def getCookie (h : RequestHeaders) (key : Bytes) : Except Fault (Option Bytes) :=
  match h.getHeader cookieName with
  | none => .ok none
  | some cookies => Cookie.getCookie cookies key

end RequestHeaders

/-- The fields of the cookies, in the order they came in. -/
def cookieFields (fields : List HeaderField) : List Bytes :=
  (fields.filter isCookie).map Prod.snd

namespace IncomingRequest

/-- **The cookies that are stored** are those of the fields that are stored. -/
theorem filter_recvFields (fields : List HeaderField) :
    (recvFields fields).headers.others.filter isCookie
      = (recvFields fields).stored.filter isCookie := by
  refine recvFields_induction
    (I := fun s => s.headers.others.filter isCookie = s.stored.filter isCookie)
    rfl (fun s f h => ?_) fields
  unfold onHeaderCb
  rw [if_neg (not_not.mpr rfl)]
  split_ifs with hlong
  · exact h
  · dsimp only
    rw [RequestHeaders.filter_addHeader, List.filter_append, ← h]
    rfl

/-- **`get_header` finds the first field of the cookies** that was stored. -/
theorem getHeader_recvFields (fields : List HeaderField) :
    (recvFields fields).headers.getHeader cookieName
      = (cookieFields (recvFields fields).stored).head? := by
  rw [RequestHeaders.getHeader_cookie, cookieFields, List.head?_map,
    ← filter_recvFields, List.head?_filter]

end IncomingRequest

/-! ## The pairs of a field -/

namespace Cookie

/-- A text stands where a pair may begin: at the beginning or behind a `;`. -/
def Opens (before : Bytes) : Prop := before = [] ∨ before.getLast? = some 59

/-- A text stands where a pair may end: at the end or in front of a `;`. -/
def Closes (after : Bytes) : Prop := after = [] ∨ after.head? = some 59

/-- **A field contains a pair**: a name behind blanks and, behind the first `=`,
a value up to the next `;` or the end. -/
structure HasPair (s name value : Bytes) : Prop where
  stands : ∃ before k after, Opens before ∧ Closes after
    ∧ s = before ++ (List.replicate k 32 ++ (name ++ 61 :: (value ++ after)))
  name_head : name.head? ≠ some 32
  equals_notMem_name : 61 ∉ name
  semicolon_notMem_name : 59 ∉ name
  semicolon_notMem_value : 59 ∉ value

/-- What a turn leaves stands where a pair may begin. -/
theorem opens_of_restOf {s rest : Bytes} (h : restOf s = some rest) :
    ∃ before, before.getLast? = some 59 ∧ s = before ++ rest := by
  obtain ⟨front, hs⟩ := exists_of_restOf h
  refine ⟨front ++ [59], List.getLast?_concat, ?_⟩
  rw [hs, List.append_assoc]
  rfl

/-- **Every turn looks at a text that stands where a pair may begin.** -/
theorem exists_of_mem_turns {s t : Bytes} (h : t ∈ turns s) :
    ∃ before, Opens before ∧ s = before ++ t := by
  induction hn : s.length using Nat.strong_induction_on generalizing s with
  | _ n ih =>
    by_cases hblank : Blank s
    · rw [turns_of_blank hblank] at h
      exact absurd h List.not_mem_nil
    cases hrest : restOf s with
    | none =>
      rw [turns_of_last hblank hrest, List.mem_singleton] at h
      exact ⟨[], Or.inl rfl, h.symm⟩
    | some rest =>
      rw [turns_of_more hblank hrest, List.mem_cons] at h
      rcases h with rfl | hmem
      · exact ⟨[], Or.inl rfl, rfl⟩
      · -- behind the `;` of this turn
        obtain ⟨before, hlast, hs⟩ := opens_of_restOf hrest
        obtain ⟨before', hopens, hrest'⟩ :=
          ih rest.length (hn ▸ length_lt_of_restOf hrest) hmem rfl
        refine ⟨before ++ before', Or.inr ?_, ?_⟩
        · rw [List.getLast?_append, hlast]
          rcases hopens with rfl | hlast'
          · rfl
          · rw [hlast']
            rfl
        · rw [hs, hrest', List.append_assoc]

/-- A text begins with blanks, perhaps none. -/
theorem exists_blanks (x : Bytes) :
    ∃ k name, x = List.replicate k 32 ++ name ∧ name.head? ≠ some 32 := by
  induction x with
  | nil => exact ⟨0, [], rfl, by decide⟩
  | cons c x ih =>
    by_cases hc : c = 32
    · obtain ⟨k, name, hx, hhead⟩ := ih
      exact ⟨k + 1, name, by rw [hx, hc]; rfl, hhead⟩
    · refine ⟨0, c :: x, rfl, fun h => hc ?_⟩
      exact Option.some.inj h

/-- **A name that is read without an `=`** stands at the beginning of the text. -/
theorem nameOf_of_equals_notMem {x y : Bytes} (hx : 61 ∉ x)
    (hname : 61 ∉ nameOf (x ++ 61 :: y)) :
    nameOf (x ++ 61 :: y) = x ∧ x.head? ≠ some 32 := by
  obtain ⟨k, name, rfl, hhead⟩ := exists_blanks x
  have hequals : 61 ∉ name := fun h => hx (List.mem_append_right _ h)
  rw [List.append_assoc, nameOf_replicate k hequals hhead] at hname ⊢
  cases k with
  | zero => exact ⟨List.take_left, hhead⟩
  | succ k =>
    rw [List.take_length_add_append] at hname
    exact absurd (List.mem_append_right _ List.mem_cons_self) hname

/-- Without an `=`, the name is all but the blanks. -/
theorem exists_eq_nameOf {t : Bytes} (ht : 61 ∉ t) :
    ∃ k, t = List.replicate k 32 ++ nameOf t := by
  have hname : nameOf t = t.dropWhile isBlank := by
    unfold nameOf
    rw [nameEnd_of_not_mem ht]
    exact List.take_of_length_le (List.dropWhile_suffix _).length_le
  have hblanks : t.takeWhile isBlank
      = List.replicate (t.takeWhile isBlank).length 32 := by
    refine List.eq_replicate_of_mem fun c hc => ?_
    have hkind : isBlank c = true := List.mem_takeWhile_imp hc
    exact eq_of_beq hkind
  refine ⟨(t.takeWhile isBlank).length, ?_⟩
  rw [← hblanks, hname, List.takeWhile_append_dropWhile]

section Answers

variable {key t : Bytes} (hequals : 61 ∉ key) (hsemicolon : 59 ∉ key)
  (h : answers key t = true)

include hequals h

theorem equals_notMem_nameOf : 61 ∉ nameOf t := fun hmem =>
  hequals ((mem_iff_of_streqL h (by decide)).mp hmem)

/-- **Where nothing is left behind it, the pair is read right.** -/
theorem hasPair_of_answers {s : Bytes} (hmem : t ∈ turns s) (ht : 59 ∉ t)
    (hpair : 61 ∈ t) :
    HasPair s (nameOf t) (valueOf t) := by
  obtain ⟨before, hopens, hs⟩ := exists_of_mem_turns hmem
  have hname := equals_notMem_nameOf hequals h
  obtain ⟨x, y, rfl, hx⟩ := List.eq_append_cons_of_mem hpair
  obtain ⟨hxname, hhead⟩ := nameOf_of_equals_notMem hx hname
  rw [List.mem_append, List.mem_cons, not_or, not_or] at ht
  obtain ⟨hsemicolon_x, -, hsemicolon_y⟩ := ht
  rw [hxname, ((beginsBehind_equals hx y).last hsemicolon_y).2]
  refine ⟨⟨before, 0, [], hopens, Or.inl rfl, ?_⟩, hhead, hx, hsemicolon_x,
    hsemicolon_y⟩
  rw [hs, List.append_nil]
  rfl

include hsemicolon

/-- **Where something is left behind it, the value is cut too far behind.** -/
theorem semicolon_mem_valueOf (ht : 59 ∈ t) : 59 ∈ valueOf t := by
  have hname : 59 ∉ nameOf t := fun hmem =>
    hsemicolon ((mem_iff_of_streqL h (by decide)).mp hmem)
  rcases exists_beginsBehind t with ⟨hnone, -⟩ | ⟨x, y, rfl, hx, hbegins⟩
  · obtain ⟨k, hwhole⟩ := exists_eq_nameOf hnone
    rw [hwhole] at ht
    refine absurd ((List.mem_append.mp ht).resolve_left fun hmem => ?_) hname
    exact absurd (List.eq_of_mem_replicate hmem) (by decide)
  · have hxname := (nameOf_of_equals_notMem hx (equals_notMem_nameOf hequals h)).1
    rw [List.mem_append, List.mem_cons] at ht
    rcases ht with hmem | heq | hmem
    · exact absurd hmem (hxname ▸ hname)
    · exact absurd heq (by decide)
    · obtain ⟨v, r, rfl, hv⟩ := List.eq_append_cons_of_mem hmem
      exact hbegins.semicolon_mem_valueOf hv
        (List.append_ne_nil_of_right_ne_nil _ (List.cons_ne_nil _ _))

end Answers

end Cookie

/-! ## The cookies of a request -/

/-- **A value of a name** in the fields of a request: that of a pair in some field
of the cookies, with that name up to case. -/
def Named (fields : List HeaderField) (key v : Bytes) : Prop :=
  ∃ s ∈ cookieFields fields, ∃ name, HasPair s name v ∧ streqL name key = true

/-- A name that some pair has is no part of the grammar. -/
theorem Named.notMem {fields : List HeaderField} {key v : Bytes}
    (h : Named fields key v) : 61 ∉ key ∧ 59 ∉ key := by
  obtain ⟨s, -, name, hpair, hname⟩ := h
  exact ⟨fun hmem => hpair.equals_notMem_name
      ((mem_iff_of_streqL hname (by decide)).mpr hmem),
    fun hmem => hpair.semicolon_notMem_name
      ((mem_iff_of_streqL hname (by decide)).mpr hmem)⟩

theorem Named.semicolon_notMem {fields : List HeaderField} {key v : Bytes}
    (h : Named fields key v) : 59 ∉ v := by
  obtain ⟨s, -, name, hpair, -⟩ := h
  exact hpair.semicolon_notMem_value

namespace RequestHeaders

/-- **The cookie of a request is found**: if there is a pair of that name in some
field of the cookies, the value of one is returned, and only if there is none,
nothing is. -/
structure FindsPair (fields : List HeaderField) (key : Bytes) : Prop where
  found : ∀ v, Named fields key v →
    ∃ v', (IncomingRequest.recvFields fields).headers.getCookie key = .ok (some v')
      ∧ Named fields key v'
  absent : (IncomingRequest.recvFields fields).headers.getCookie key = .ok none →
    ∀ v, ¬ Named fields key v

/-- **A field sets a name to a text**: the name, an `=` and the text stand in it,
behind blanks perhaps, where a pair may begin and end. -/
def SetsTo (s key text : Bytes) : Prop :=
  ∃ name, streqL name key = true ∧ name.head? ≠ some 32
    ∧ ∃ before k after, Opens before ∧ Closes after
      ∧ s = before ++ (List.replicate k 32 ++ (name ++ 61 :: (text ++ after)))

/-- **The first text that answers to a key** is the last one of its field, and has
an `=`. Without one it is the name alone, behind blanks, and taken for the value; so
some field has to set the name to itself, with the same blanks in front. -/
def ReadRight (fields : List HeaderField) (key s : Bytes) : Prop :=
  ∃ t, (turns s).find? (answers key) = some t ∧ 59 ∉ t
    ∧ (61 ∈ t ∨ ∃ k name, t = List.replicate k 32 ++ name ∧ streqL name key = true
      ∧ ∃ s' ∈ cookieFields fields, SetsTo s' key t)

/-- A text without a `;` is the value of a name exactly if some field sets the name
to it. -/
theorem named_iff_setsTo {fields : List HeaderField} {key t : Bytes}
    (hkey : 61 ∉ key ∧ 59 ∉ key) (ht : 59 ∉ t) :
    Named fields key t ↔ ∃ s ∈ cookieFields fields, SetsTo s key t := by
  constructor
  · rintro ⟨s, hs, name, hpair, hname⟩
    obtain ⟨before, k, after, hopens, hcloses, heq⟩ := hpair.stands
    exact ⟨s, hs, name, hname, hpair.name_head, before, k, after, hopens, hcloses,
      heq⟩
  · rintro ⟨s, hs, name, hname, hhead, before, k, after, hopens, hcloses, heq⟩
    exact ⟨s, hs, name, ⟨⟨before, k, after, hopens, hcloses, heq⟩, hhead,
      fun h => hkey.1 ((mem_iff_of_streqL hname (by decide)).mp h),
      fun h => hkey.2 ((mem_iff_of_streqL hname (by decide)).mp h), ht⟩, hname⟩

/-- The fields that are stored are among those that came in. -/
theorem stored_subset (fields : List HeaderField) :
    (IncomingRequest.recvFields fields).stored ⊆ fields := by
  induction fields using List.reverseRecOn with
  | nil => exact List.nil_subset _
  | append_singleton fields f ih =>
    unfold IncomingRequest.recvFields
    rw [List.foldl_append, List.foldl_cons, List.foldl_nil]
    change ((IncomingRequest.recvFields fields).onHeaderCb .request f).stored ⊆ _
    unfold IncomingRequest.onHeaderCb
    rw [if_neg (not_not.mpr rfl)]
    split_ifs
    · exact List.Subset.trans ih (List.subset_append_left _ _)
    · exact List.append_subset.mpr
        ⟨List.Subset.trans ih (List.subset_append_left _ _),
          List.subset_append_right _ _⟩

/-- **What is found in the first field** is a value of the name exactly if it is
read right. -/
theorem named_iff {fields : List HeaderField} {key s t : Bytes}
    (hs : s ∈ cookieFields fields) (hkey : 61 ∉ key ∧ 59 ∉ key)
    (hfind : (turns s).find? (answers key) = some t) :
    Named fields key (valueOf t) ↔ 59 ∉ t
      ∧ (61 ∈ t ∨ ∃ k name, t = List.replicate k 32 ++ name
        ∧ streqL name key = true ∧ ∃ s' ∈ cookieFields fields, SetsTo s' key t) := by
  have hanswers := List.find?_some hfind
  by_cases hsemicolon : 59 ∈ t
  · refine iff_of_false (fun h => ?_) fun h => h.1 hsemicolon
    exact h.semicolon_notMem
      (semicolon_mem_valueOf hkey.1 hkey.2 hanswers hsemicolon)
  rw [and_iff_right hsemicolon]
  by_cases hequals : 61 ∈ t
  · refine iff_of_true ?_ (Or.inl hequals)
    exact ⟨s, hs, nameOf t, hasPair_of_answers hkey.1 hanswers
      (List.mem_of_find?_eq_some hfind) hsemicolon hequals, hanswers⟩
  · -- the name alone, which is read as its own value
    rw [((beginsBehind_nil hequals).last hsemicolon).2, or_iff_right hequals,
      named_iff_setsTo hkey hsemicolon]
    obtain ⟨k, hwhole⟩ := exists_eq_nameOf hequals
    exact ⟨fun h => ⟨k, nameOf t, hwhole, hanswers, h⟩,
      fun ⟨_, _, _, _, h⟩ => h⟩

/-- **A value of the name is found in the first field** exactly if it is read right
there. -/
theorem exists_getCookie_iff {fields : List HeaderField} {key s : Bytes}
    (hs : s ∈ cookieFields fields) (hkey : 61 ∉ key ∧ 59 ∉ key) :
    (∃ v, Cookie.getCookie s key = .ok (some v) ∧ Named fields key v)
      ↔ ReadRight fields key s := by
  unfold ReadRight
  rw [getCookie_eq_find]
  cases hfind : (turns s).find? (answers key) with
  | none =>
    refine iff_of_false ?_ ?_
    · rintro ⟨v, hget, -⟩
      dsimp only at hget
      split_ifs at hget
      cases hget
    · rintro ⟨t, ht, -⟩
      cases ht
  | some t =>
    have hnamed := named_iff hs hkey hfind
    constructor
    · rintro ⟨v, hget, hv⟩
      cases hget
      exact ⟨t, rfl, hnamed.mp hv⟩
    · rintro ⟨t', ht, hright⟩
      cases ht
      exact ⟨valueOf t, rfl, hnamed.mpr hright⟩

/-- If there is a pair of the name, it is found exactly if a value of the name
is. -/
theorem findsPair_of_named {fields : List HeaderField} {key v : Bytes}
    (hv : Named fields key v) :
    FindsPair fields key ↔ ∃ v',
      (IncomingRequest.recvFields fields).headers.getCookie key = .ok (some v')
        ∧ Named fields key v' := by
  constructor
  · exact fun h => h.found v hv
  · rintro ⟨v', hget, hv'⟩
    refine ⟨fun _ _ => ⟨v', hget, hv'⟩, fun hget' => ?_⟩
    rw [hget] at hget'
    cases hget'

/-- **Exactly these cookies are found**: those that no field has a pair for, and
those that are read right in the first field that was stored. -/
theorem findsPair_iff (fields : List HeaderField) (key : Bytes) :
    FindsPair fields key
      ↔ (∀ v, ¬ Named fields key v)
        ∨ ∃ s, (cookieFields (IncomingRequest.recvFields fields).stored).head?
            = some s ∧ ReadRight fields key s := by
  by_cases hnone : ∀ v, ¬ Named fields key v
  · exact iff_of_true ⟨fun v h => absurd h (hnone v), fun _ => hnone⟩
      (Or.inl hnone)
  obtain ⟨v, hv⟩ := not_forall_not.mp hnone
  rw [or_iff_right hnone, findsPair_of_named hv]
  unfold getCookie
  rw [IncomingRequest.getHeader_recvFields]
  cases hhead : (cookieFields (IncomingRequest.recvFields fields).stored).head? with
  | none =>
    refine iff_of_false ?_ ?_
    · rintro ⟨v', hget, -⟩
      cases hget
    · rintro ⟨s, hs, -⟩
      cases hs
  | some s =>
    have hs : s ∈ cookieFields fields := by
      obtain ⟨f, hf, rfl⟩ := List.mem_map.mp (List.mem_of_head? hhead)
      have hf' := List.mem_filter.mp hf
      exact List.mem_map_of_mem
        (List.mem_filter.mpr ⟨stored_subset fields hf'.1, hf'.2⟩)
    dsimp only
    rw [exists_getCookie_iff hs hv.notMem]
    constructor
    · exact fun h => ⟨s, rfl, h⟩
    · rintro ⟨s', hs', h⟩
      cases hs'
      exact h

/-- Two cookies in two fields. -/
def twoFields : List HeaderField :=
  [(bytes "cookie", bytes "a=1"), (bytes "cookie", bytes "b=2")]

/-- **A cookie in the second field** is not found. -/
theorem secondField_not_findsPair :
    ¬ ∀ (fields : List HeaderField) (key : Bytes), FindsPair fields key := by
  intro h
  have hget : (IncomingRequest.recvFields twoFields).headers.getCookie (bytes "b")
      = .ok none := by
    unfold getCookie
    rw [show (IncomingRequest.recvFields twoFields).headers.getHeader cookieName
      = some (bytes "a=1") by decide +kernel]
    exact getCookie_of_last (by decide) (by decide) (by decide)
  refine (h twoFields (bytes "b")).absent hget (bytes "2")
    ⟨bytes "b=2", by decide, bytes "b", ⟨?_, by decide, by decide, by decide,
      by decide⟩, by decide⟩
  exact ⟨[], 0, [], Or.inl rfl, Or.inl rfl, by decide⟩

end RequestHeaders
