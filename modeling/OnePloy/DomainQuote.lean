import OnePloy.Lib.PhpText
import OnePloy.Lib.StableSort

/-!
# DomainQuote

The price of a domain name. The extensions of the price table are compared with the
name in lower case and without the dots they may be written with; the price is then
looked up under the extension as it was compared.
-/

namespace OnePloy

open Php Conc

/-- A configured price: an integer, or anything else by the text it is cast to. -/
inductive RetailPrice
  | int (n : Int)
  | cast (text : String)

/-- `oneploy.domains.retail_prices`: prices by extension and currency. -/
abbrev RetailPrices := List (String × List (String × RetailPrice))

/-- `PHP_INT_MAX`. -/
def intMax : Int := 9223372036854775807

/-- A product of integers, which is an integer as long as it has 64 bits. -/
inductive Amount
  | int (n : Int)
  | float
deriving DecidableEq

def Amount.product (a b : Int) : Amount :=
  if -intMax - 1 ≤ a * b ∧ a * b ≤ intMax then .int (a * b) else .float

structure DomainQuote where
  currency : String
  unitAmountMinor : Int
  amountMinor : Amount
  years : Int

/-- `(int)` of a text of digits, which stops at the largest integer. -/
def intOfDigits (s : String) : Int := min (digitsValue s.toList) intMax

/-- `ltrim(strtolower($extension), '.')`. -/
def normaliseExtension (extension : String) : String :=
  String.ofList ((strtolower extension).toList.dropWhile (· == '.'))

/-- `$unitAmount`, if it is an integer or consists of digits. -/
def unitAmount? : Option RetailPrice → Option Int
  | none => none
  | some (.int n) => some n
  | some (.cast text) => if ctypeDigit text then some (intOfDigits text) else none

/-- `$s ? … : …`. -/
def isTruthyText (s : String) : Bool := s != "" && s != "0"

/-- `strtoupper($currency ?: (string) config('oneploy.domains.default_currency', 'USD'))`. -/
def quoteCurrency (defaultCurrency : String) (currency : Option String) : String :=
  strtoupper (if currency.any isTruthyText then currency.getD "" else defaultCurrency)

/-- `quote`. -/
def quote (retailPrices : Option RetailPrices) (defaultCurrency : String) (domain : String)
    (currency : Option String) (years : Int) : Option DomainQuote :=
  let domain := strtolower (trim domain)
  let currency := quoteCurrency defaultCurrency currency
  match retailPrices with
  | none => none
  | some prices =>
      if years < 1 ∨ 10 < years then none
      else
        let extensions := (prices.map fun row => normaliseExtension row.1).insertionSort
          fun a b => b.utf8ByteSize ≤ a.utf8ByteSize
        let extension := extensions.find? fun candidate => strEndsWith domain ("." ++ candidate)
        let unitAmount := unitAmount? ((extension.filter isTruthyText).bind fun extension =>
          (prices.lookup extension).bind fun row => row.lookup currency)
        match unitAmount with
        | none => none
        | some unitAmount =>
            if unitAmount < 1 then none
            else some ⟨currency, unitAmount, Amount.product unitAmount years, years⟩

/-! ## The price that was meant -/

/-- The positive integer that a price is, if it is one. -/
def RetailPrice.positive? : RetailPrice → Option Int
  | .int n => if 1 ≤ n then some n else none
  | .cast text =>
      if ctypeDigit text ∧ 1 ≤ digitsValue text.toList then some (digitsValue text.toList) else none

section Table

variable {prices : RetailPrices} {domain key : String}

/-- The domain ends in the extension, behind a dot. -/
def HasExtension (domain extension : String) : Prop :=
  strEndsWith (strtolower (trim domain)) ("." ++ extension) = true

/-- No other extension of the table that the domain ends in is longer. -/
def IsMostSpecific (prices : RetailPrices) (domain key : String) : Prop :=
  HasExtension domain (normaliseExtension key) ∧
    ∀ row ∈ prices, HasExtension domain (normaliseExtension row.1) →
      (normaliseExtension row.1).utf8ByteSize ≤ (normaliseExtension key).utf8ByteSize

/-- The price for the most specific extension, in a currency. -/
def PricedAt (prices : RetailPrices) (domain currency key : String) (price : Int) : Prop :=
  ∃ row, (key, row) ∈ prices ∧ IsMostSpecific prices domain key ∧
    (row.lookup currency).bind RetailPrice.positive? = some price

/-- Keys are distinct after normalisation. -/
def DistinctExtensions (prices : RetailPrices) : Prop :=
  (prices.map fun row => normaliseExtension row.1).Nodup

/-- Of two extensions of one domain the shorter ends the longer. -/
theorem extension_unique {a b : String} (ha : HasExtension domain a) (hb : HasExtension domain b)
    (hsize : a.utf8ByteSize = b.utf8ByteSize) : a = b := by
  have hsuffix : ∀ {x : String}, HasExtension domain x →
      x.toList <:+ (strtolower (trim domain)).toList := by
    intro x hx
    have h := List.isSuffixOf_iff_suffix.mp hx
    rw [String.toList_append] at h
    exact (List.suffix_append _ _).trans h
  have hempty : ∀ {x y : String}, x.utf8ByteSize = y.utf8ByteSize → x.toList <:+ y.toList →
      x = y := by
    rintro x y hxy ⟨front, hfront⟩
    have hy : y = String.ofList front ++ x := by
      rw [← String.ofList_toList (s := y), ← hfront, String.ofList_append, String.ofList_toList]
    have hzero : (String.ofList front).utf8ByteSize = 0 := by
      rw [hy, String.utf8ByteSize_append] at hxy
      omega
    rw [String.utf8ByteSize_eq_zero_iff.mp hzero, String.empty_append] at hy
    exact hy.symm
  rcases List.suffix_or_suffix_of_suffix (hsuffix ha) (hsuffix hb) with h | h
  · exact hempty hsize h
  · exact (hempty hsize.symm h).symm

theorem key_unique (hdistinct : DistinctExtensions prices)
    {a b : String × List (String × RetailPrice)} (ha : a ∈ prices) (hb : b ∈ prices)
    (h : normaliseExtension a.1 = normaliseExtension b.1) : a = b :=
  List.inj_on_of_nodup_map hdistinct ha hb h

theorem dropWhile_idem {p : Char → Bool} (s : List Char) :
    (s.dropWhile p).dropWhile p = s.dropWhile p := by
  induction s with
  | nil => rfl
  | cons c cs ih =>
      by_cases hc : p c = true
      · rw [List.dropWhile_cons_of_pos hc, ih]
      · rw [List.dropWhile_cons_of_neg hc, List.dropWhile_cons_of_neg hc]

/-- A key that is spelled as it is compared. -/
def IsNormal (key : String) : Prop := normaliseExtension key = key

theorem isNormal_normaliseExtension (extension : String) :
    IsNormal (normaliseExtension extension) := by
  have hlower : ∀ c ∈ (strtolower extension).toList.dropWhile (· == '.'), c.toLower = c := by
    intro c hc
    have hmem := (List.dropWhile_suffix _).mem hc
    rw [strtolower, String.toList_ofList] at hmem
    obtain ⟨d, -, rfl⟩ := List.mem_map.mp hmem
    exact toLower_toLower d
  have hsame : strtolower (normaliseExtension extension) = normaliseExtension extension := by
    rw [strtolower, normaliseExtension, String.toList_ofList]
    conv_rhs => rw [← List.map_id ((strtolower extension).toList.dropWhile (· == '.'))]
    rw [List.map_congr_left (g := id) hlower]
  rw [IsNormal, normaliseExtension, hsame, normaliseExtension, String.toList_ofList,
    dropWhile_idem]

/-! ## What is quoted -/

/-- The extension that `quote` finds. -/
def foundExtension (prices : RetailPrices) (domain : String) : Option String :=
  ((prices.map fun row => normaliseExtension row.1).insertionSort
    fun a b => b.utf8ByteSize ≤ a.utf8ByteSize).find? fun candidate =>
      strEndsWith (strtolower (trim domain)) ("." ++ candidate)

/-- The extension found is the one of the most specific key. -/
theorem foundExtension_eq_some {extension : String}
    (h : foundExtension prices domain = some extension) :
    ∃ row ∈ prices, IsMostSpecific prices domain row.1 ∧ normaliseExtension row.1 = extension := by
  have htotal : Std.Total fun a b : String => b.utf8ByteSize ≤ a.utf8ByteSize :=
    ⟨fun a b => Nat.le_total _ _⟩
  have htrans : IsTrans String fun a b => b.utf8ByteSize ≤ a.utf8ByteSize :=
    ⟨fun _ _ _ hab hbc => Nat.le_trans hbc hab⟩
  obtain ⟨hmem, hhas, hfirst⟩ := find?_insertionSort h
  obtain ⟨row, hrow, rfl⟩ := List.mem_map.mp hmem
  refine ⟨row, hrow, ⟨hhas, fun other hother hotherHas => ?_⟩, rfl⟩
  rcases hfirst _ (List.mem_map_of_mem hother) hotherHas with heq | hle
  · exact Nat.le_of_eq (congrArg String.utf8ByteSize heq.symm)
  · exact hle

theorem foundExtension_of_mostSpecific {row : String × List (String × RetailPrice)}
    (hrow : row ∈ prices) (h : IsMostSpecific prices domain row.1) :
    foundExtension prices domain = some (normaliseExtension row.1) := by
  cases hfound : foundExtension prices domain with
  | none =>
      have hno := List.find?_eq_none.mp hfound (normaliseExtension row.1)
        ((List.mem_insertionSort _).mpr (List.mem_map_of_mem hrow))
      exact absurd h.1 hno
  | some extension =>
      obtain ⟨other, hother, hspecific, rfl⟩ := foundExtension_eq_some hfound
      have hsize := Nat.le_antisymm (h.2 other hother hspecific.1) (hspecific.2 row hrow h.1)
      rw [extension_unique hspecific.1 h.1 hsize]

theorem mem_of_lookup {extension : String} {row : List (String × RetailPrice)}
    (h : prices.lookup extension = some row) : (extension, row) ∈ prices := by
  obtain ⟨before, behind, rfl, -⟩ := List.lookup_eq_some_iff.mp h
  exact List.mem_append_right _ (List.mem_cons_self ..)

/-- Under the extension that was compared stands the row of its key only if the key is
spelled so. -/
theorem lookup_normaliseExtension (hdistinct : DistinctExtensions prices)
    {row : String × List (String × RetailPrice)} (hrow : row ∈ prices) :
    (IsNormal row.1 → prices.lookup (normaliseExtension row.1) = some row.2) ∧
      (¬ IsNormal row.1 → prices.lookup (normaliseExtension row.1) = none) := by
  have hsame : ∀ found, prices.lookup (normaliseExtension row.1) = some found →
      (normaliseExtension row.1, found) = row := by
    intro found hfound
    exact key_unique hdistinct (mem_of_lookup hfound) hrow (isNormal_normaliseExtension row.1)
  constructor
  · intro hnormal
    have hsome : (prices.lookup row.1).isSome := List.lookup_isSome_iff.mpr ⟨row, hrow, by simp⟩
    rw [← show normaliseExtension row.1 = row.1 from hnormal] at hsome
    obtain ⟨found, hfound⟩ := Option.isSome_iff_exists.mp hsome
    rw [hfound, ← hsame found hfound]
  · intro hnot
    cases hfound : prices.lookup (normaliseExtension row.1) with
    | none => rfl
    | some found => exact absurd (congrArg Prod.fst (hsame found hfound)) hnot

/-- No two rows are meant. -/
theorem mostSpecific_unique (hdistinct : DistinctExtensions prices)
    {a b : String × List (String × RetailPrice)} (ha : a ∈ prices) (hb : b ∈ prices)
    (hspecific : IsMostSpecific prices domain a.1) (hspecific' : IsMostSpecific prices domain b.1) :
    a = b := by
  have hsize : (normaliseExtension a.1).utf8ByteSize = (normaliseExtension b.1).utf8ByteSize :=
    Nat.le_antisymm (hspecific'.2 a ha hspecific.1) (hspecific.2 b hb hspecific'.1)
  exact key_unique hdistinct ha hb (extension_unique hspecific.1 hspecific'.1 hsize)

/-- What `quote` reads is the price that was meant, up to the largest integer. -/
theorem unitAmount?_positive? {price : RetailPrice} {p : Int} (h : price.positive? = some p) :
    ∃ n, unitAmount? (some price) = some n ∧ 1 ≤ n ∧ (p ≤ intMax → n = p) ∧
      (intMax < p → intMax ≤ n) := by
  have hmax : 1 ≤ intMax := by decide
  cases price with
  | int n =>
      rw [RetailPrice.positive?] at h
      split at h
      · next hpos =>
        obtain rfl := Option.some.inj h
        exact ⟨n, rfl, hpos, fun _ => rfl, fun hlt => Int.le_of_lt hlt⟩
      · cases h
  | cast text =>
      rw [RetailPrice.positive?] at h
      split at h
      · next hdigits =>
        obtain rfl := Option.some.inj h
        refine ⟨intOfDigits text, by rw [unitAmount?, if_pos hdigits.1], ?_⟩
        unfold intOfDigits
        omega
      · cases h

/-- What is no positive integer is not read as one. -/
theorem unitAmount?_of_positive?_none {price : RetailPrice} (h : price.positive? = none) {n : Int}
    (hn : unitAmount? (some price) = some n) : n < 1 := by
  cases price with
  | int m =>
      obtain rfl := Option.some.inj hn
      rw [RetailPrice.positive?] at h
      split at h
      · cases h
      · omega
  | cast text =>
      rw [unitAmount?] at hn
      split at hn
      · next hdigits =>
        obtain rfl := Option.some.inj hn
        rw [RetailPrice.positive?] at h
        split at h
        · cases h
        · next hno =>
          unfold intOfDigits
          by_contra hge
          exact hno ⟨hdigits, by omega⟩
      · cases hn

/-- The answer is the price of the most specific extension for all the years, and there
is none exactly when there is no such price. -/
def QuotesAsPriced (prices : RetailPrices) (domain currency : String) (years : Int)
    (answer : Option DomainQuote) : Prop :=
  (∀ key price, PricedAt prices domain currency key price →
      ∃ q, answer = some q ∧ q.amountMinor = .int (years * price)) ∧
    (answer = none ↔ ¬ ∃ key price, PricedAt prices domain currency key price)

/-- The product is the amount as long as that is an integer. -/
theorem product_eq_iff {n price years : Int} (hyears : 1 ≤ years) (hpos : 1 ≤ n)
    (hsmall : price ≤ intMax → n = price) (hlarge : intMax < price → intMax ≤ n) :
    Amount.product n years = .int (years * price) ↔ years * price ≤ intMax := by
  unfold Amount.product
  constructor
  · intro h
    split at h
    · next hrange =>
      rw [← Amount.int.inj h]
      exact hrange.2
    · cases h
  · intro hle
    have hmax : (0 : Int) < intMax := by decide
    have hprice : price ≤ intMax := by
      by_contra hlt
      have : 1 * price ≤ years * price := Int.mul_le_mul_of_nonneg_right hyears (by omega)
      omega
    obtain rfl := hsmall hprice
    have hnonneg : 0 ≤ n * years := Int.mul_nonneg (by omega) (by omega)
    rw [Int.mul_comm] at hle
    rw [if_pos ⟨by omega, hle⟩, Int.mul_comm]

/-- The price that `quote` finds for a currency. -/
def foundPrice (prices : RetailPrices) (domain currency : String) : Option RetailPrice :=
  ((foundExtension prices domain).filter isTruthyText).bind fun extension =>
    (prices.lookup extension).bind fun row => row.lookup currency

theorem quote_eq_foundPrice (defaultCurrency : String) (currency : Option String) {years : Int}
    (hyears : 1 ≤ years ∧ years ≤ 10) :
    quote (some prices) defaultCurrency domain currency years =
      match unitAmount? (foundPrice prices domain (quoteCurrency defaultCurrency currency)) with
      | none => none
      | some unitAmount =>
          if unitAmount < 1 then none
          else some ⟨quoteCurrency defaultCurrency currency, unitAmount,
            Amount.product unitAmount years, years⟩ := by
  have hno : ¬ (years < 1 ∨ 10 < years) := by omega
  simp only [quote, if_neg hno]
  rfl

theorem foundPrice_of_mostSpecific (hdistinct : DistinctExtensions prices)
    {row : String × List (String × RetailPrice)} (hrow : row ∈ prices)
    (h : IsMostSpecific prices domain row.1) (currency : String) :
    (IsNormal row.1 ∧ isTruthyText row.1 = true →
        foundPrice prices domain currency = row.2.lookup currency) ∧
      (¬ (IsNormal row.1 ∧ isTruthyText row.1 = true) →
        foundPrice prices domain currency = none) := by
  obtain ⟨hfound, hmissing⟩ := lookup_normaliseExtension hdistinct hrow
  rw [foundPrice, foundExtension_of_mostSpecific hrow h]
  by_cases hnormal : IsNormal row.1
  · have hkey : normaliseExtension row.1 = row.1 := hnormal
    have hlookup := hfound hnormal
    rw [hkey] at hlookup ⊢
    by_cases htruthy : isTruthyText row.1 = true
    · simp [Option.filter, htruthy, hnormal, hlookup]
    · simp [Option.filter, htruthy]
  · refine ⟨fun hboth => absurd hboth.1 hnormal, fun _ => ?_⟩
    by_cases htruthy : isTruthyText (normaliseExtension row.1) = true
    · simp [Option.filter, htruthy, hmissing hnormal]
    · simp [Option.filter, htruthy]

/-- A price that is found is that of the most specific key. -/
theorem foundPrice_eq_some (hdistinct : DistinctExtensions prices) {currency : String}
    {price : RetailPrice} (h : foundPrice prices domain currency = some price) :
    ∃ row ∈ prices, IsMostSpecific prices domain row.1 ∧ row.2.lookup currency = some price := by
  have hextension : ∃ extension, foundExtension prices domain = some extension := by
    cases hfound : foundExtension prices domain with
    | none =>
        rw [foundPrice, hfound] at h
        cases h
    | some extension => exact ⟨extension, rfl⟩
  obtain ⟨extension, hfound⟩ := hextension
  obtain ⟨row, hrow, hspecific, -⟩ := foundExtension_eq_some hfound
  obtain ⟨hread, hmissing⟩ := foundPrice_of_mostSpecific hdistinct hrow hspecific currency
  by_cases hkey : IsNormal row.1 ∧ isTruthyText row.1 = true
  · exact ⟨row, hrow, hspecific, (hread hkey).symm.trans h⟩
  · rw [hmissing hkey] at h
    cases h

/-- Where nothing is priced, nothing is quoted. -/
theorem quote_eq_none (hdistinct : DistinctExtensions prices) (defaultCurrency : String)
    (currency : Option String) {years : Int} (hyears : 1 ≤ years ∧ years ≤ 10)
    (hno : ¬ ∃ key price, PricedAt prices domain (quoteCurrency defaultCurrency currency) key
      price) :
    quote (some prices) defaultCurrency domain currency years = none := by
  rw [quote_eq_foundPrice defaultCurrency currency hyears]
  have hread : ∀ n, unitAmount?
      (foundPrice prices domain (quoteCurrency defaultCurrency currency)) = some n → n < 1 := by
    intro n hn
    cases hprice : foundPrice prices domain (quoteCurrency defaultCurrency currency) with
    | none =>
        rw [hprice] at hn
        cases hn
    | some price =>
        rw [hprice] at hn
        obtain ⟨row, hrow, hspecific, hlookup⟩ := foundPrice_eq_some hdistinct hprice
        cases hpositive : price.positive? with
        | none => exact unitAmount?_of_positive?_none hpositive hn
        | some p =>
            exact absurd ⟨row.1, p, row.2, hrow, hspecific, by rw [hlookup]; exact hpositive⟩ hno
  split
  · rfl
  · next n hn => rw [if_pos (hread n hn)]

/-- What is quoted where a price is meant. -/
theorem quote_of_pricedAt (hdistinct : DistinctExtensions prices) (defaultCurrency : String)
    (currency : Option String) {years price : Int} (hyears : 1 ≤ years ∧ years ≤ 10)
    (h : PricedAt prices domain (quoteCurrency defaultCurrency currency) key price) :
    (∃ q, quote (some prices) defaultCurrency domain currency years = some q ∧
        q.amountMinor = .int (years * price)) ↔
      IsNormal key ∧ isTruthyText key = true ∧ years * price ≤ intMax := by
  obtain ⟨row, hrow, hspecific, hpositive⟩ := h
  obtain ⟨found, hlookup, hpositive⟩ := Option.bind_eq_some_iff.mp hpositive
  obtain ⟨hread, hmissing⟩ := foundPrice_of_mostSpecific hdistinct hrow hspecific
    (quoteCurrency defaultCurrency currency)
  rw [quote_eq_foundPrice defaultCurrency currency hyears]
  by_cases hkey : IsNormal key ∧ isTruthyText key = true
  · obtain ⟨n, hn, hpos, hsmall, hlarge⟩ := unitAmount?_positive? hpositive
    rw [hread hkey, hlookup, hn]
    simp only [if_neg (show ¬ n < 1 by omega), Option.some.injEq, exists_eq_left', hkey.1, hkey.2,
      true_and]
    exact product_eq_iff hyears.1 hpos hsmall hlarge
  · rw [hmissing hkey]
    refine ⟨?_, fun hall => absurd ⟨hall.1, hall.2.1⟩ hkey⟩
    rintro ⟨q, hq, -⟩
    cases hq

/-- The answer is the price that is meant exactly when the key of its extension is
spelled as it is compared, is neither empty nor zero, and the amount is an integer. -/
theorem quotes_as_priced_iff (prices : RetailPrices) (hdistinct : DistinctExtensions prices)
    (defaultCurrency domain : String) (currency : Option String) (years : Int)
    (hyears : 1 ≤ years ∧ years ≤ 10) :
    QuotesAsPriced prices domain (quoteCurrency defaultCurrency currency) years
        (quote (some prices) defaultCurrency domain currency years) ↔
      ∀ key price, PricedAt prices domain (quoteCurrency defaultCurrency currency) key price →
        IsNormal key ∧ isTruthyText key = true ∧ years * price ≤ intMax := by
  constructor
  · intro h key price hpriced
    exact (quote_of_pricedAt hdistinct defaultCurrency currency hyears hpriced).mp
      (h.1 key price hpriced)
  · intro h
    refine ⟨fun key price hpriced => ?_, ⟨fun hnone hex => ?_, fun hno => ?_⟩⟩
    · exact (quote_of_pricedAt hdistinct defaultCurrency currency hyears hpriced).mpr
        (h key price hpriced)
    · obtain ⟨key, price, hpriced⟩ := hex
      obtain ⟨q, hsome, -⟩ :=
        (quote_of_pricedAt hdistinct defaultCurrency currency hyears hpriced).mpr
          (h key price hpriced)
      rw [hnone] at hsome
      cases hsome
    · exact quote_eq_none hdistinct defaultCurrency currency hyears hno

end Table

def britishPrices : RetailPrices :=
  [("uk", [("USD", .int 899)]), ("co.uk", [("USD", .int 999), ("EUR", .cast "950")])]

theorem quotes_as_priced_iff_british :
    QuotesAsPriced britishPrices " Shop.CO.UK" "EUR" 2
      (quote (some britishPrices) "USD" " Shop.CO.UK" (some "eur") 2) := by
  have hall : ∀ row ∈ britishPrices, IsNormal row.1 ∧ isTruthyText row.1 = true ∧
      ∀ price ∈ (row.2.lookup "EUR").bind RetailPrice.positive?, 2 * price ≤ intMax := by
    unfold IsNormal
    decide +kernel
  refine (quotes_as_priced_iff britishPrices (by unfold DistinctExtensions; decide +kernel) "USD"
    " Shop.CO.UK" (some "eur") 2 (by decide)).mpr ?_
  rintro key price ⟨row, hrow, -, hprice⟩
  obtain ⟨hnormal, htruthy, hle⟩ := hall (key, row) hrow
  exact ⟨hnormal, htruthy, hle price hprice⟩

def shoutedPrices : RetailPrices := [("COM", [("USD", .int 1299)])]

/-- A key in capitals is compared but not found. -/
theorem capital_key_is_not_quoted :
    DistinctExtensions shoutedPrices ∧
      PricedAt shoutedPrices "example.com" "USD" "COM" 1299 ∧
      quote (some shoutedPrices) "USD" "example.com" none 1 = none ∧
      ¬ QuotesAsPriced shoutedPrices "example.com" (quoteCurrency "USD" none) 1
        (quote (some shoutedPrices) "USD" "example.com" none 1) := by
  have hpriced : PricedAt shoutedPrices "example.com" "USD" "COM" 1299 := by
    refine ⟨[("USD", .int 1299)], List.mem_singleton.mpr rfl, ⟨?_, fun row hrow _ => ?_⟩, rfl⟩
    · unfold HasExtension
      decide +kernel
    · rw [List.mem_singleton.mp hrow]
  have hnone : quote (some shoutedPrices) "USD" "example.com" none 1 = none := by
    rw [← Option.isNone_iff_eq_none]
    decide +kernel
  refine ⟨by unfold DistinctExtensions; decide +kernel, hpriced, hnone, fun h => ?_⟩
  have husd : quoteCurrency "USD" none = "USD" := by decide +kernel
  obtain ⟨q, hq, -⟩ := h.1 "COM" 1299 (by rwa [husd])
  rw [hnone] at hq
  cases hq

end OnePloy
