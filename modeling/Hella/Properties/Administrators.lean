import Hella.Web.Requests

/-!
# Whose password it is

`initialize` puts the configured users and the configured passwords into a set each, and
`doValidation` looks into the one and into the other. Which password belongs to whom is
lost: each administrator gets in with the password of every other one.
-/
namespace Hella

open Text

namespace SystemAdministrator

/-- The value of a property for a list of entries; without an entry it is not there. -/
def value : List String → Option String
  | [] => none
  | entries => some (",".intercalate entries)

/-- The entries that `initialize` finds in the value: `split` drops the empty ones at the
end, unless there is no comma. -/
def kept (entries : List String) : List String :=
  if entries.length ≤ 1 then entries else entries.rdropWhile (· == "")

variable {doMD5 : String → String} {users passwords entries : List String}

theorem kept_subset : kept entries ⊆ entries := by
  unfold kept
  split
  · exact List.Subset.refl _
  · exact (List.rdropWhile_prefix _ _).subset

theorem kept_of_nonempty (nonempty : "" ∉ entries) : kept entries = entries := by
  unfold kept
  split
  · rfl
  · rw [List.rdropWhile_eq_self_iff]
    intro some_
    have member := List.getLast_mem some_
    simp only [beq_iff_eq]
    exact fun empty => nonempty (empty ▸ member)

theorem split_value (commaless : ∀ entry ∈ entries, ',' ∉ entry.toList) :
    ((value entries).map split).getD [] = kept entries := by
  match entries with
  | [] => rfl
  | [entry] =>
    have plain : ',' ∉ (",".intercalate [entry]).toList := by
      simpa [String.toList_intercalate] using commaless entry (List.mem_singleton_self entry)
    simp only [value, Option.map_some, Option.getD_some, split, if_neg plain]
    simp [kept]
  | first :: second :: rest =>
    exact (split_intercalate_of_plain (by simp) commaless).trans (by simp [kept])

theorem doValidation_eq_true (plain_users : ∀ entry ∈ users, ',' ∉ entry.toList)
    (plain_passwords : ∀ entry ∈ passwords, ',' ∉ entry.toList) (user password : String) :
    (configured (value users) (value passwords)).doValidation doMD5 user password = true ↔
      user ∈ kept users ∧ doMD5 password ∈ kept passwords := by
  simp only [doValidation, configured, split_value plain_users, split_value plain_passwords, Bool.and_eq_true,
    List.contains_iff_mem]

/-- An entry that is the MD5 of a password at all is the entry of every administrator, so
all of them have this one password. Nothing that is needed for it is dropped by `split`. -/
def Shared (doMD5 : String → String) (users passwords : List String) : Prop :=
  ∀ (j : Nat) password, passwords[j]? = some (doMD5 password) →
    doMD5 password ∈ kept passwords ∧ (∀ user, users[j]? = some user → user ∈ kept users) ∧
      ∀ (i : Nat) user, users[i]? = some user → user ∈ kept users → passwords[i]? = some (doMD5 password)

/-- Where no entry is empty, the hashes are just all the same. -/
theorem shared_iff (pairs : users.length = passwords.length) (some_user : "" ∉ users) (some_password : "" ∉ passwords) :
    Shared doMD5 users passwords ↔ ∀ password, doMD5 password ∈ passwords → ∀ entry ∈ passwords,
      entry = doMD5 password := by
  unfold Shared
  rw [kept_of_nonempty some_user, kept_of_nonempty some_password]
  constructor
  · intro shared password member entry other
    obtain ⟨j, place⟩ := List.mem_iff_getElem?.mp member
    obtain ⟨i, there⟩ := List.mem_iff_getElem?.mp other
    have inside : i < users.length := by
      rw [pairs]
      exact (List.getElem?_eq_some_iff.mp there).1
    obtain ⟨-, -, own⟩ := shared j password place
    have same := own i users[i] (List.getElem?_eq_getElem inside) (List.getElem_mem inside)
    exact Option.some.inj (there.symm.trans same)
  · intro same j password place
    have member := List.mem_of_getElem? place
    refine ⟨member, fun user there => List.mem_of_getElem? there, fun i user there _ => ?_⟩
    have inside : i < passwords.length := by
      rw [← pairs]
      exact (List.getElem?_eq_some_iff.mp there).1
    rw [List.getElem?_eq_getElem inside]
    exact congrArg some (same password member _ (List.getElem_mem inside))

/-- Every login is decided by the user's own password exactly if all administrators share
one. -/
theorem ownPassword_iff (doMD5 : String → String) (users passwords : List String)
    (plain_users : ∀ entry ∈ users, ',' ∉ entry.toList) (plain_passwords : ∀ entry ∈ passwords, ',' ∉ entry.toList)
    (pairs : users.length = passwords.length) (distinct : users.Nodup) :
    (∀ user password, (configured (value users) (value passwords)).doValidation doMD5 user password = true ↔
      ∃ i : Nat, users[i]? = some user ∧ passwords[i]? = some (doMD5 password)) ↔ Shared doMD5 users passwords := by
  simp only [doValidation_eq_true plain_users plain_passwords]
  constructor
  -- one direction: each password is tried with each user
  · intro own j password place
    have inside : j < users.length := by
      rw [pairs]
      exact (List.getElem?_eq_some_iff.mp place).1
    obtain ⟨listed, hash⟩ := (own users[j] password).mpr ⟨j, List.getElem?_eq_getElem inside, place⟩
    refine ⟨hash, fun user there => ?_, fun i user there user_listed => ?_⟩
    · rw [List.getElem?_eq_getElem inside] at there
      exact Option.some.inj there ▸ listed
    · -- the user comes in with this password, so it is the one at his index
      obtain ⟨k, same, own_password⟩ := (own user password).mp ⟨user_listed, hash⟩
      have bound : i < users.length := (List.getElem?_eq_some_iff.mp there).1
      have index : i = k := (List.getElem?_inj bound distinct).mp (there.trans same.symm)
      exact index ▸ own_password
  -- the other: who comes in has a password of the list, and that one is his own
  · intro shared user password
    constructor
    · rintro ⟨listed, hash⟩
      obtain ⟨j, place⟩ := List.mem_iff_getElem?.mp (kept_subset hash)
      obtain ⟨i, there⟩ := List.mem_iff_getElem?.mp (kept_subset listed)
      obtain ⟨-, -, own⟩ := shared j password place
      exact ⟨i, there, own i user there listed⟩
    · rintro ⟨i, there, place⟩
      obtain ⟨hash, listed, -⟩ := shared i password place
      exact ⟨listed user there, hash⟩

/-- MD5 on two passwords. -/
def md5Of (password : String) : String :=
  if password = "123456" then "e10adc3949ba59abbe56e057f20f883e"
  else if password = "password" then "5f4dcc3b5aa765d61d8327deb882cf99"
  else "d41d8cd98f00b204e9800998ecf8427e"

/-- Two administrators with one password both get in with it. -/
theorem ownPassword_two :
    Shared md5Of ["scott", "root"] ["e10adc3949ba59abbe56e057f20f883e", "e10adc3949ba59abbe56e057f20f883e"] ∧
      ∀ user password, (configured (value ["scott", "root"])
        (value ["e10adc3949ba59abbe56e057f20f883e", "e10adc3949ba59abbe56e057f20f883e"])).doValidation md5Of user
          password = true ↔ ∃ i : Nat, ["scott", "root"][i]? = some user ∧
            ["e10adc3949ba59abbe56e057f20f883e", "e10adc3949ba59abbe56e057f20f883e"][i]? = some (md5Of password) := by
  let users := ["scott", "root"]
  let passwords := ["e10adc3949ba59abbe56e057f20f883e", "e10adc3949ba59abbe56e057f20f883e"]
  have pairs : users.length = passwords.length := rfl
  have shared : Shared md5Of users passwords := by
    refine (shared_iff pairs (by decide) (by decide)).mpr fun password member entry other => ?_
    have one : ∀ hash ∈ passwords, hash = "e10adc3949ba59abbe56e057f20f883e" := by decide
    rw [one _ member, one entry other]
  exact ⟨shared, (ownPassword_iff md5Of users passwords (by decide) (by decide) pairs (by decide)).mpr shared⟩

/-- With passwords of their own `root` gets in with the password of `scott`. -/
theorem not_ownPassword_root :
    ¬ ∀ user password, (configured (value ["scott", "root"])
      (value ["e10adc3949ba59abbe56e057f20f883e", "5f4dcc3b5aa765d61d8327deb882cf99"])).doValidation md5Of user
      password = true ↔ ∃ i : Nat, ["scott", "root"][i]? = some user ∧
        ["e10adc3949ba59abbe56e057f20f883e", "5f4dcc3b5aa765d61d8327deb882cf99"][i]? = some (md5Of password) := by
  intro own
  obtain ⟨i, there, place⟩ := (own "root" "123456").mp (by decide)
  match i with
  | 0 => exact absurd there (by decide)
  | 1 => exact absurd place (by decide)
  | _ + 2 => cases there

end SystemAdministrator

end Hella
