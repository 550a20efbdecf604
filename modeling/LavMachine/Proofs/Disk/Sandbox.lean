import Mathlib
import LavMachine.Proofs.Disk.Calls
set_option autoImplicit false

/-!
Where path text leads. A text is cut into components; starting at the root or at the working
directory, a name goes one down and `..` goes one up. Resolving a text gives the place its
components lead to. It fails exactly when one of them would climb over the root, and a place it
gives has names on the way and no dots. So a disk's working directory stays below its root through
any history of calls, and a name that climbs is refused before anything is touched.
-/
namespace LavMachine

namespace Path

def IsName (part : String) : Prop := part ∉ ["", ".", ".."] ∧ '/' ∉ part.toList ∧ '\\' ∉ part.toList

instance (part : String) : Decidable (IsName part) := inferInstanceAs (Decidable (_ ∧ _))

def Plain (p : Path) : Prop := ∀ part ∈ p, IsName part

instance (p : Path) : Decidable (Plain p) := inferInstanceAs (Decidable (∀ part ∈ p, IsName part))

def components (text : String) : List String :=
  ((text.toList.splitOnP (· ∈ ['/', '\\'])).map String.ofList).filter (· ∉ ["", "."])

/-- Where reading a text starts. -/
def origin (cwd : Path) (text : String) : Path :=
  if text.toList.head? ∈ [some '/', some '\\'] then [] else cwd

/-- Going by the components one after the other, from `p` to `q`. -/
inductive Leads : Path → List String → Path → Prop where
  | here {p : Path} : Leads p [] p
  | down {p q : Path} {name : String} {rest : List String} :
    name ≠ ".." → Leads (p ++ [name]) rest q → Leads p (name :: rest) q
  | up {p q : Path} {name : String} {rest : List String} :
    Leads p rest q → Leads (p ++ [name]) (".." :: rest) q

/-- On the way some `..` is met at the root. -/
def Climbs (p : Path) (parts : List String) : Prop :=
  ∃ before after, parts = before ++ ".." :: after ∧ Leads p before []

theorem not_separator_of_mem_splitOnP {separates : Char → Bool} {cs part : List Char}
    (h : part ∈ cs.splitOnP separates) : ∀ c ∈ part, separates c = false := by
  induction cs generalizing part with
  | nil => simp_all [List.splitOnP_nil]
  | cons c cs ih =>
    rw [List.splitOnP_cons_eq_if_modifyHead] at h
    obtain ⟨first, others, hsplit⟩ := List.exists_cons_of_ne_nil (List.splitOnP_ne_nil separates cs)
    rw [hsplit] at ih h
    by_cases hc : separates c <;> simp [hc] at h
    · rcases h with rfl | rfl | h
      · simp
      · exact ih List.mem_cons_self
      · exact ih (List.mem_cons_of_mem _ h)
    · rcases h with rfl | h
      · simpa [hc] using ih List.mem_cons_self
      · exact ih (List.mem_cons_of_mem _ h)

theorem isName_of_mem_components {text part : String} (h : part ∈ components text)
    (hup : part ≠ "..") :
    IsName part := by
  obtain ⟨hpart, hdot⟩ := List.mem_filter.1 h
  obtain ⟨cs, hcs, rfl⟩ := List.mem_map.1 hpart
  have hfree := not_separator_of_mem_splitOnP hcs
  refine ⟨by simpa [hup] using hdot, fun hc => ?_, fun hc => ?_⟩
  · simpa using hfree '/' (by simpa using hc)
  · simpa using hfree '\\' (by simpa using hc)

theorem splitFrom_eq (separates : Char → Bool) (cs part : List Char) :
    splitFrom separates cs part = (cs.splitOnPPrepend separates part).map String.ofList := by
  fun_induction splitFrom separates cs part with
  | case1 part => simp
  | case2 part c rest hc ih => simp [List.splitOnPPrepend_cons_pos hc, ih]
  | case3 part c rest hc ih => simp [List.splitOnPPrepend_cons_neg (by simpa using hc), ih]

theorem split_eq (text : String) :
    split isSeparator text = (text.toList.splitOnP (· ∈ ['/', '\\'])).map String.ofList := by
  have hseparator : isSeparator = fun c => decide (c ∈ ['/', '\\']) := by
    funext c
    simp [isSeparator, Bool.decide_or, beq_eq_decide]
  rw [split, splitFrom_eq, List.splitOnPPrepend_nil_right, hseparator]

theorem foldlM_enter?_filter (parts : List String) (p : Path) :
    parts.foldlM enter? p = (parts.filter (· ∉ ["", "."])).foldlM enter? p := by
  induction parts generalizing p with
  | nil => rfl
  | cons part parts ih =>
    by_cases hdot : part ∈ ["", "."]
    · have hstay : enter? p part = some p := by
        rcases List.mem_cons.1 hdot with rfl | hdot
        · rfl
        · rw [List.mem_singleton.1 hdot]
          rfl
      rw [List.filter_cons_of_neg (by rwa [decide_eq_true_eq, not_not]), List.foldlM_cons, hstay]
      exact ih p
    · rw [List.filter_cons_of_pos (by simpa using hdot), List.foldlM_cons, List.foldlM_cons]
      simp only [ih]

theorem resolve?_eq (cwd : Path) (text : String) :
    resolve? cwd text = (components text).foldlM enter? (origin cwd text) := by
  have hstart :
      (if (text.toList.head?.map isSeparator).getD false then [] else cwd) = origin cwd text := by
    unfold origin
    cases text.toList.head? <;> simp [isSeparator]
  rw [resolve?, hstart, split_eq, foldlM_enter?_filter]
  rfl

theorem leads_nil_iff {p q : Path} : Leads p [] q ↔ p = q :=
  ⟨fun h => by cases h; rfl, fun h => h ▸ .here⟩

theorem leads_down_iff {p q : Path} {name : String} {rest : List String} (hname : name ≠ "..") :
    Leads p (name :: rest) q ↔ Leads (p ++ [name]) rest q := by
  refine ⟨fun h => ?_, .down hname⟩
  cases h with
  | down _ h => exact h
  | up h => exact absurd rfl hname

theorem leads_up_iff {p q : Path} {name : String} {rest : List String} :
    Leads (p ++ [name]) (".." :: rest) q ↔ Leads p rest q := by
  refine ⟨fun h => ?_, .up⟩
  generalize hstart : p ++ [name] = start at h
  cases h with
  | down hup _ => exact absurd rfl hup
  | up h =>
    obtain ⟨rfl, _⟩ := List.append_inj' hstart rfl
    exact h

theorem not_leads_up_nil {q : Path} {rest : List String} : ¬ Leads [] (".." :: rest) q := by
  intro h
  generalize hstart : ([] : Path) = start at h
  cases h with
  | down hup _ => exact hup rfl
  | up h => simp at hstart

theorem not_climbs_nil {p : Path} : ¬ Climbs p [] := by rintro ⟨before, after, h, _⟩; simp at h

theorem climbs_up_nil {rest : List String} : Climbs [] (".." :: rest) := ⟨[], rest, rfl, .here⟩

theorem climbs_down_iff {p : Path} {name : String} {rest : List String} (hname : name ≠ "..") :
    Climbs p (name :: rest) ↔ Climbs (p ++ [name]) rest := by
  constructor
  · rintro ⟨_ | ⟨first, before⟩, after, h, hleads⟩
    · simp_all
    · obtain ⟨rfl, rfl⟩ := List.cons.inj h
      exact ⟨before, after, rfl, (leads_down_iff hname).1 hleads⟩
  · rintro ⟨before, after, rfl, hleads⟩
    exact ⟨name :: before, after, rfl, .down hname hleads⟩

theorem climbs_up_iff {p : Path} {name : String} {rest : List String} :
    Climbs (p ++ [name]) (".." :: rest) ↔ Climbs p rest := by
  constructor
  · rintro ⟨_ | ⟨first, before⟩, after, h, hleads⟩
    · simp [leads_nil_iff] at hleads
    · obtain ⟨rfl, rfl⟩ := List.cons.inj h
      exact ⟨before, after, rfl, leads_up_iff.1 hleads⟩
  · rintro ⟨before, after, rfl, hleads⟩
    exact ⟨".." :: before, after, rfl, .up hleads⟩

theorem enter?_name {part : String} (hdot : part ∉ ["", "."]) (hup : part ≠ "..") (p : Path) :
    enter? p part = some (p ++ [part]) := by
  simp_all [enter?]

theorem enter?_up_nil : enter? [] ".." = none := by decide

theorem enter?_up_concat (p : Path) (name : String) : enter? (p ++ [name]) ".." = some p := by
  simp [enter?]

/-- Going by the components is the fold over them, and that fails just when they climb. -/
theorem foldlM_enter? {parts : List String} (hdots : ∀ part ∈ parts, part ∉ ["", "."]) (p : Path) :
    (∀ q, parts.foldlM enter? p = some q ↔ Leads p parts q) ∧
      (parts.foldlM enter? p = none ↔ Climbs p parts) := by
  induction parts generalizing p with
  | nil => simp [leads_nil_iff, not_climbs_nil]
  | cons part parts ih =>
    obtain ⟨hdot, hrest⟩ := List.forall_mem_cons.1 hdots
    rw [List.foldlM_cons]
    by_cases hup : part = ".."
    · subst hup
      rcases List.eq_nil_or_concat p with rfl | ⟨p, name, rfl⟩
      · simp [enter?_up_nil, not_leads_up_nil, climbs_up_nil]
      · simpa only [List.concat_eq_append, enter?_up_concat, Option.bind_eq_bind, Option.bind_some,
          leads_up_iff, climbs_up_iff] using ih hrest p
    · simpa only [enter?_name hdot hup, Option.bind_eq_bind, Option.bind_some, leads_down_iff hup,
        climbs_down_iff hup] using ih hrest (p ++ [part])

theorem not_mem_of_mem_components {text part : String} (h : part ∈ components text) :
    part ∉ ["", "."] := by
  simpa using (List.mem_filter.1 h).2

theorem resolve?_eq_some_iff {cwd p : Path} {text : String} :
    resolve? cwd text = some p ↔ Leads (origin cwd text) (components text) p := by
  rw [resolve?_eq]
  exact (foldlM_enter? (fun _ => not_mem_of_mem_components) _).1 p

theorem resolve?_eq_none_iff {cwd : Path} {text : String} :
    resolve? cwd text = none ↔ Climbs (origin cwd text) (components text) := by
  rw [resolve?_eq]
  exact (foldlM_enter? (fun _ => not_mem_of_mem_components) _).2

theorem Plain.concat {p : Path} {name : String} (hp : p.Plain) (hname : IsName name) :
    (p ++ [name]).Plain := by
  simpa [Plain, or_imp, forall_and] using ⟨hp, hname⟩

theorem Leads.plain {p q : Path} {parts : List String} (h : Leads p parts q) (hp : p.Plain)
    (hparts : ∀ part ∈ parts, part ≠ ".." → IsName part) : q.Plain := by
  induction h with
  | here => exact hp
  | down hname _ ih =>
    obtain ⟨hfirst, hrest⟩ := List.forall_mem_cons.1 hparts
    exact ih (hp.concat (hfirst hname)) hrest
  | up _ ih => exact ih (fun part h => hp part (by simp [h])) (List.forall_mem_cons.1 hparts).2

theorem plain_origin {cwd : Path} (h : cwd.Plain) (text : String) : (origin cwd text).Plain := by
  unfold origin
  split
  · simp [Plain]
  · exact h

theorem plain_of_resolve? {cwd p : Path} {text : String} (hcwd : cwd.Plain)
    (h : resolve? cwd text = some p) :
    p.Plain :=
  (resolve?_eq_some_iff.1 h).plain (plain_origin hcwd text) fun _ => isName_of_mem_components

end Path

namespace HostedDisk

theorem Served.plain_cwd {d d' : HostedDisk} {c : DiskCall} {a : c.Answer} (h : d.Served c a d')
    (hcwd : d.cwd.Plain) : d'.cwd.Plain := by
  cases h with
  | refused | opened | absent | used | other | disposed => exact hcwd
  | closed n =>
    unfold close
    split <;> exact hcwd
  | entered hp => exact Path.plain_of_resolve? hcwd hp

theorem plain_cwd_answerAll {d : HostedDisk} (hcwd : d.cwd.Plain) (calls : List DiskCall) :
    (d.answerAll calls).cwd.Plain :=
  List.foldlRecOn (motive := fun d : HostedDisk => d.cwd.Plain) calls _ hcwd
    fun d hd c _ => (served_answer c d).plain_cwd hd

theorem refused_of_resolve? {d : HostedDisk} {name : Bytes} (h : d.resolve? name = none) :
    (∀ mode, answer (.openFile name mode) d = ((0 : Word), d)) ∧
      answer (.changeDirectory name) d = (false, d) ∧ answer (.makeDirectory name) d = (false, d) ∧
      answer (.delete name) d = (false, d) := by
  refine ⟨fun mode => ?_, ?_, ?_, ?_⟩
  · simp only [answer, openFile_eq_error (.inr (.inr h))]
  · simp [answer, changeDirectory?, h, attempt]
  · simp [answer, makeDirectory?, h, attempt]
  · simp [answer, delete?, h, attempt]

/-- Whatever calls a mounted disk has answered, its working directory is reached from the root by
names alone, and so is every place that a text resolves to. A text resolves to where its components
lead; it is refused exactly when they climb over the root, and then nothing is opened, entered, made
or deleted. -/
theorem names_confined {tree : Tree} {root : String} {start : HostedDisk}
    (hmount : mount tree root = .ok start) (calls : List DiskCall) :
    let d := start.answerAll calls
    d.cwd.Plain ∧
    (∀ text p, Path.resolve? d.cwd text = some p → p.Plain) ∧
    (∀ text p, Path.resolve? d.cwd text = some p ↔
      Path.Leads (Path.origin d.cwd text) (Path.components text) p) ∧
    (∀ text, Path.resolve? d.cwd text = none ↔
      Path.Climbs (Path.origin d.cwd text) (Path.components text)) ∧
    (∀ name, d.resolve? name = Path.resolve? d.cwd (Gbk.decode name)) ∧
    (∀ name, d.resolve? name = none →
      (∀ mode, answer (.openFile name mode) d = ((0 : Word), d)) ∧
      answer (.changeDirectory name) d = (false, d) ∧ answer (.makeDirectory name) d = (false, d) ∧
      answer (.delete name) d = (false, d)) := by
  intro d
  obtain ⟨p, rfl⟩ := mount_eq_ok hmount
  have hcwd : d.cwd.Plain := plain_cwd_answerAll (by simp [Path.Plain]) calls
  exact ⟨hcwd, fun _ _ => Path.plain_of_resolve? hcwd, fun _ _ => Path.resolve?_eq_some_iff,
    fun _ => Path.resolve?_eq_none_iff, fun _ => rfl, fun _ => refused_of_resolve?⟩

/-- Two directories down, two `..` lead to the root and three climb over it, whichever way they are
spelt. -/
theorem names_confined_nested :
    ∃ start, mount .empty "" = .ok start ∧
      let d := start.answerAll
        [.makeDirectory (Gbk.encode "a"), .changeDirectory (Gbk.encode "\\a/."),
        .makeDirectory (Gbk.encode "b"), .changeDirectory (Gbk.encode ".//b\\")]
      d.cwd = ["a", "b"] ∧ d.cwd.Plain ∧
      d.resolve? (Gbk.encode "..\\./..") = some [] ∧ Path.Leads d.cwd ["..", ".."] [] ∧
      d.resolve? (Gbk.encode "..\\../..//c") = none ∧ Path.Climbs d.cwd ["..", "..", "..", "c"] ∧
      answer (.delete (Gbk.encode "..\\../..//c")) d = (false, d) := by
  refine ⟨_, rfl, ?_⟩
  intro d
  obtain ⟨hplain, _, hleads, hclimbs, _, hrefused⟩ := names_confined
    (show mount .empty "" = .ok _ from rfl)
    [.makeDirectory (Gbk.encode "a"), .changeDirectory (Gbk.encode "\\a/."),
      .makeDirectory (Gbk.encode "b"), .changeDirectory (Gbk.encode ".//b\\")]
  have hcwd : d.cwd = ["a", "b"] := by decide +kernel
  have hsome : d.resolve? (Gbk.encode "..\\./..") = some [] := by decide +kernel
  have hnone : d.resolve? (Gbk.encode "..\\../..//c") = none := by decide +kernel
  refine ⟨hcwd, hplain, hsome, ?_, hnone, ?_, (hrefused _ hnone).2.2.2⟩
  · exact (hleads "..\\./.." []).1 (by rw [hcwd]; decide +kernel)
  · exact (hclimbs "..\\../..//c").1 (by rw [hcwd]; decide +kernel)

end HostedDisk
end LavMachine
