import Chronos.LogWriter
import Chronos.Calendar

/-!
# Deleting old logs

`deleteOldFiles` runs over the log directory after each change of the date.
It computes a cut-off from `retention_days` and does not use it: a file goes
when its date place is below the current date. The removal of a file is taken
to succeed.
-/

set_option autoImplicit false

namespace Chronos.LogWriter
open ByteRecords Calendar

def ascii (s : String) : Bytes := s.toList.map Char.toUInt8

structure DirEntry where
  name : Bytes
  isRegularFile : Bool
  deriving DecidableEq

def word : LogType → String
  | .tick => "tick"
  | .order => "order"
  | .fill => "fill"

def fileName (type : LogType) (date : Bytes) : Bytes :=
  ascii (word type)++(ascii "_"++(date++ascii ".bin"))

def ownPattern (name : Bytes) : Bool :=
  (ascii "tick_").isPrefixOf name || (ascii "order_").isPrefixOf name || (ascii "fill_").isPrefixOf name

def datePlace (name : Bytes) : Bytes := (name.drop (name.length-12)).take 8

def removes (currentDate : Bytes) (e : DirEntry) : Bool :=
  if !e.isRegularFile then false
  else if e.name.length < 13 then false
  else if datePlace e.name < currentDate then ownPattern e.name
  else false

def deleteOldFiles (retentionDays : ℕ) (currentDate : Bytes) (entries : List DirEntry) :
    List DirEntry :=
  if retentionDays = 0 then entries else entries.filter (fun e => !removes currentDate e)

theorem removes_iff (currentDate : Bytes) (e : DirEntry) : removes currentDate e = true ↔
    e.isRegularFile = true ∧ 13 ≤ e.name.length ∧ datePlace e.name < currentDate ∧
      ownPattern e.name = true := by
  unfold removes
  cases hr : e.isRegularFile with
  | false => simp
  | true =>
    by_cases hlen : e.name.length < 13
    · simp [hlen]
    · by_cases hdate : datePlace e.name < currentDate
      · simp [hlen, hdate, not_lt.mp hlen]
      · simp [hdate]

def IsLogOf (name : Bytes) (d : Date) : Prop := ∃ type, name = fileName type d.text

theorem datePlace_log (name : Bytes) (d : Date) (h : IsLogOf name d) : datePlace name = d.text := by
  obtain ⟨type,rfl⟩ := h
  have hlen : (d.text++ascii ".bin").length = 12 := by
    rw [List.length_append, d.length_text]
    rfl
  have hsplit : fileName type d.text = (ascii (word type)++ascii "_")++(d.text++ascii ".bin") := by
    rw [fileName, List.append_assoc]
  rw [datePlace, hsplit, List.length_append, hlen, Nat.add_sub_cancel, List.drop_left,
    List.take_left' d.length_text]

theorem logDate_unique (name : Bytes) (d d' : Date) (h : IsLogOf name d) (h' : IsLogOf name d') :
    d = d' :=
  Date.text_injective ((datePlace_log name d h).symm.trans (datePlace_log name d' h'))

theorem log_own (name : Bytes) (d : Date) (h : IsLogOf name d) :
    13 ≤ name.length ∧ ownPattern name = true := by
  obtain ⟨type,rfl⟩ := h
  have hlen : (fileName type d.text).length = (ascii (word type)).length+(1+(8+4)) := by
    rw [fileName, List.length_append, List.length_append, List.length_append, d.length_text]
    rfl
  constructor
  · omega
  · cases type <;> rfl

theorem removes_log (today d : Date) (e : DirEntry) (hr : e.isRegularFile = true)
    (h : IsLogOf e.name d) (hd : d < today) : removes today.text e = true := by
  obtain ⟨hlen,hown⟩ := log_own e.name d h
  refine (removes_iff today.text e).mpr ⟨hr,hlen,?_,hown⟩
  rw [datePlace_log e.name d h]
  exact (Date.text_lt_iff d today).mpr hd

def Expired (r : ℕ) (today : Date) (name : Bytes) : Prop :=
  ∃ d : Date, IsLogOf name d ∧ d.dayNumber+r < today.dayNumber

/-- The expired logs are removed and nothing else. -/
def Retains (r : ℕ) (today : Date) (entries : List DirEntry) : Prop :=
  ∀ e ∈ entries, e ∉ deleteOldFiles r today.text entries ↔
    e.isRegularFile = true ∧ Expired r today e.name

/-- No log is dated within the `r` days before this one, and no other file with
a log's first letters has a date place below today's date. -/
structure OnlyOldBelow (r : ℕ) (today : Date) (entries : List DirEntry) : Prop where
  recent : ∀ e ∈ entries, e.isRegularFile = true → ∀ d, IsLogOf e.name d → d < today →
    d.dayNumber+r < today.dayNumber
  foreign : ∀ e ∈ entries, e.isRegularFile = true → ownPattern e.name = true →
    13 ≤ e.name.length → datePlace e.name < today.text → ∃ d, IsLogOf e.name d

theorem not_mem_deleteOldFiles (r : ℕ) (hr : 1 ≤ r) (currentDate : Bytes) (entries : List DirEntry)
    (e : DirEntry) (he : e ∈ entries) :
    e ∉ deleteOldFiles r currentDate entries ↔ removes currentDate e = true := by
  rw [deleteOldFiles, if_neg (by omega), List.mem_filter]
  simp [he]

theorem retains_iff (r : ℕ) (hr : 1 ≤ r) (today : Date) (entries : List DirEntry) :
    Retains r today entries ↔ OnlyOldBelow r today entries := by
  constructor
  · intro h
    constructor
    · intro e he hregular d hlog hd
      have hgone := (not_mem_deleteOldFiles r hr today.text entries e he).mpr
        (removes_log today d e hregular hlog hd)
      obtain ⟨-,d',hlog',hold⟩ := (h e he).mp hgone
      rwa [logDate_unique e.name d d' hlog hlog']
    · intro e he hregular hown hlen hdate
      have hgone := (not_mem_deleteOldFiles r hr today.text entries e he).mpr
        ((removes_iff today.text e).mpr ⟨hregular,hlen,hdate,hown⟩)
      obtain ⟨-,d,hlog,-⟩ := (h e he).mp hgone
      exact ⟨d,hlog⟩
  · intro h e he
    rw [not_mem_deleteOldFiles r hr today.text entries e he]
    constructor
    · intro hgone
      obtain ⟨hregular,hlen,hdate,hown⟩ := (removes_iff today.text e).mp hgone
      obtain ⟨d,hlog⟩ := h.foreign e he hregular hown hlen hdate
      rw [datePlace_log e.name d hlog, Date.text_lt_iff] at hdate
      exact ⟨hregular,d,hlog,h.recent e he hregular d hlog hdate⟩
    · rintro ⟨hregular,d,hlog,hold⟩
      have hd : d < today := Date.dayNumber_strictMono.lt_iff_lt.mp (by omega)
      exact removes_log today d e hregular hlog hd

def secondOfMarch : Date := ⟨2026,3,2,by decide,by decide,by decide,by decide,by decide⟩
def thirdOfMarch : Date := { secondOfMarch with day := 3, day_pos := by decide, day_le := by decide }
def endOfMarch : Date := { secondOfMarch with day := 31, day_pos := by decide, day_le := by decide }

def marchTicks : DirEntry := ⟨fileName .tick secondOfMarch.text,true⟩

/-- On the next day it is gone, with thirty days of retention. -/
theorem yesterday_removed :
    deleteOldFiles 30 thirdOfMarch.text [marchTicks] = [] ∧
      ¬Retains 30 thirdOfMarch [marchTicks] := by
  have hgone : deleteOldFiles 30 thirdOfMarch.text [marchTicks] = [] := by
    decide +kernel
  refine ⟨hgone,?_⟩
  intro h
  have hnone : marchTicks ∉ deleteOldFiles 30 thirdOfMarch.text [marchTicks] := by
    rw [hgone]
    exact List.not_mem_nil
  obtain ⟨-,d,hlog,hold⟩ := (h marchTicks List.mem_cons_self).mp hnone
  have hd : d = secondOfMarch := logDate_unique _ d _ hlog ⟨.tick,rfl⟩
  have hdays := Date.dayNumber_same_month secondOfMarch thirdOfMarch rfl rfl
  have hsecond : secondOfMarch.day = 2 := rfl
  have hthird : thirdOfMarch.day = 3 := rfl
  rw [hd] at hold
  omega

/-- A month later nothing but the expired log goes. -/
theorem oldTicks_removed : Retains 28 endOfMarch [marchTicks] := by
  have hunique (d : Date) (hlog : IsLogOf marchTicks.name d) :
      d = secondOfMarch := logDate_unique _ d _ hlog ⟨.tick,rfl⟩
  refine (retains_iff 28 (by decide) endOfMarch [marchTicks]).mpr ⟨?_,?_⟩
  · intro e he _ d hlog _
    rw [List.mem_singleton.mp he] at hlog
    have hdays := Date.dayNumber_same_month secondOfMarch endOfMarch rfl rfl
    have hsecond : secondOfMarch.day = 2 := rfl
    have hend : endOfMarch.day = 31 := rfl
    rw [hunique d hlog]
    omega
  · intro e he _ _ _ _
    rw [List.mem_singleton.mp he]
    exact ⟨_,.tick,rfl⟩

end Chronos.LogWriter
