import Harmony.HttpDate
import Harmony.ResponseBody

/-!
# Conditional requests

A file response carries the date of the file, and a client that has kept the
file may send that date back. It is then told that nothing has changed if the
file is not newer than the date that `parse_http_date` makes of the text.

So the two have to agree on every date, to the second. They do up to the year
9999, the last one that has room in the text (`httpDate_revalidates`).
-/

open HttpDate

namespace Response

/-- A file with the date it goes out with. The memory for it holds what it held
before where `http_date` writes nothing. -/
def FileFacts.dated (file : FileFacts) : FileFacts :=
  { file with lastModified := (httpDate file.mtime).getD file.lastModified }

/-- **`Stream::submit_file_response`** of a file that was found, with the
`if-modified-since` header as it came. -/
def submitDatedFile (r : Response) (file : FileFacts) (ims : Option Bytes) :
    Except Fault Response := do
  let lastMod ← (match ims with
    | some value => (parseHttpDate (cStr value)).map some
    | none => .ok none)
  return r.submitFileResponse file.dated lastMod

/-- A response that says that nothing has changed. -/
def NotModified (r : Response) : Prop :=
  r.status = some (bytes "304") ∧ r.body = none

/-- **A file response says so** exactly if the file is not newer than the date
of the request. -/
theorem notModified_iff (r : Response) (file : FileFacts) (lastMod : ℤ) :
    (r.submitFileResponse file (some lastMod)).NotModified
      ↔ file.mtime ≤ lastMod := by
  unfold submitFileResponse
  by_cases hmod : file.mtime ≤ lastMod
  · rw [if_pos (by simpa using hmod)]
    exact iff_of_true ⟨rfl, rfl⟩ hmod
  · rw [if_neg (by simpa using hmod)]
    refine iff_of_false ?_ hmod
    rintro ⟨-, hbody⟩
    cases hbody

/-- The date that a file response adds is the date of the file. -/
theorem eq_lastModified_of_mem {r : Response} {file : FileFacts}
    {ims : Option ℤ} {value : Bytes}
    (hmem : (bytes "last-modified", value)
      ∈ (r.submitFileResponse file ims).headers)
    (hnew : (bytes "last-modified", value) ∉ r.headers) :
    value = file.lastModified := by
  have hother : ∀ name ∈ [bytes "date", bytes "content-type",
      bytes "content-length", bytes "content-encoding", bytes "cache-control"],
        bytes "last-modified" ≠ name := by decide +kernel
  simp only [List.forall_mem_cons] at hother
  obtain ⟨hdate, htype, hlength, hencoding, hcache, -⟩ := hother
  unfold submitFileResponse at hmem
  cases hfile : file.encoding
  all_goals
    rw [hfile] at hmem
    split_ifs at hmem
    all_goals
      simp only [submitResponse, setHeaderNc, List.mem_append,
        List.mem_singleton, Prod.mk.injEq, hnew, hdate, htype, hlength,
        hencoding, hcache, false_and, true_and, or_false, false_or] at hmem
    exact hmem

end Response

/-- **Dates survive the trip to the client** and back. -/
theorem httpDate_roundTrip {t : ℤ} (hlow : 0 ≤ t) (hhigh : t < 253402300800) :
    ∃ text, httpDate t = some text ∧ text.length = 29
      ∧ parseHttpDate (cStr text) = .ok t := by
  obtain ⟨tm, htm, hrange, hmday, htime⟩ := gmtime_of_lt hlow hhigh
  refine ⟨tm.text, ?_, Tm.length_text hrange, ?_⟩
  · rw [httpDate, htm, Option.map_some]
  · have hmon := hrange.mon
    rw [Tm.cStr_text hrange, parseHttpDate, strptime_text hrange hmday]
    dsimp only
    rw [if_neg (by omega), Tm.toTime_eq hrange, htime]

/-- **What a client may rely on** that sends back the date of a file: it is told
that nothing has changed exactly if the file is not newer. -/
def Revalidates (t : ℤ) : Prop :=
  ∀ (r r' : Response) (file file' : Response.FileFacts) (ims : Option Bytes)
    (sent : Response) (value : Bytes), file.mtime = t →
    r.submitDatedFile file ims = .ok sent →
    (bytes "last-modified", value) ∈ sent.headers →
    (bytes "last-modified", value) ∉ r.headers →
      ∃ answer, r'.submitDatedFile file' (some value) = .ok answer
        ∧ (answer.NotModified ↔ file'.mtime ≤ t)

/-- **Conditional requests are answered right**, up to the year 9999: a date has
29 characters, and it is read as the time it was written for. -/
theorem httpDate_revalidates (t : ℤ) (hlow : 0 ≤ t) (hhigh : t < 253402300800) :
    (∃ text, httpDate t = some text ∧ text.length = 29
        ∧ parseHttpDate (cStr text) = .ok t)
      ∧ Revalidates t := by
  obtain ⟨text, hwritten, hlength, hread⟩ := httpDate_roundTrip hlow hhigh
  refine ⟨⟨text, hwritten, hlength, hread⟩, ?_⟩
  rintro r r' file file' ims sent value rfl hsent hmem hnew
  unfold Response.submitDatedFile at hsent
  obtain ⟨lastMod, -, heq⟩ := Except.exists_of_bind_eq_ok hsent
  cases heq
  have hvalue := Response.eq_lastModified_of_mem hmem hnew
  rw [Response.FileFacts.dated, hwritten, Option.getD_some] at hvalue
  subst hvalue
  refine ⟨_, ?_, Response.notModified_iff r' file'.dated _⟩
  rw [Response.submitDatedFile, hread]
  rfl

/-- Noon of a leap day. -/
theorem leapDay_revalidates :
    (0 ≤ (68212800 : ℤ) ∧ (68212800 : ℤ) < 253402300800)
      ∧ (∃ text, httpDate 68212800 = some text ∧ text.length = 29
        ∧ parseHttpDate (cStr text) = .ok 68212800)
      ∧ Revalidates 68212800 :=
  ⟨by decide, httpDate_revalidates 68212800 (by decide) (by decide)⟩

example :
    httpDate 68212800 = some (bytes "Tue, 29 Feb 1972 12:00:00 GMT") := by
  decide +kernel
