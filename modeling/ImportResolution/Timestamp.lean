/-! Moments as text, in universal time. Days are counted in the Gregorian calendar, which is taken to
hold for all years. -/
namespace ImportResolution.Timestamp

/-- Year, month and day of a day counted from 1970. Years start in March here, so that the leap day
comes last. -/
def civil (day : Int) : Int × Nat × Nat :=
  let z := day + 719468
  let era := Int.fdiv z 146097
  let dayOfEra := (z - era*146097).toNat
  let yearOfEra :=
    (dayOfEra - dayOfEra/1460 + dayOfEra/36524 - dayOfEra/146096) / 365
  let dayOfYear := dayOfEra - (365*yearOfEra + yearOfEra/4 - yearOfEra/100)
  let shifted := (5*dayOfYear + 2) / 153
  let dayOfMonth := dayOfYear - (153*shifted + 2)/5 + 1
  let month := if shifted < 10 then shifted + 3 else shifted - 9
  let year : Int := yearOfEra + era*400
  (if month ≤ 2 then year + 1 else year,month,dayOfMonth)

def padded (width n : Nat) : String :=
  let digits := (toString n).toList
  String.ofList (List.replicate (width - digits.length) '0' ++ digits)

/-- Four digits; outside of these years a sign and at least four digits. -/
def yearText (year : Int) : String :=
  if 0 ≤ year ∧ year ≤ 9999 then padded 4 year.toNat
  else (if year < 0 then "-" else "+") ++ padded 4 year.natAbs

def millisPerDay : Int := 86400000

/-- A moment in milliseconds since 1970, as `2023-11-14T22:13:20.000Z`. -/
def text (millis : Int) : String :=
  let day := Int.fdiv millis millisPerDay
  let inDay := (millis - day*millisPerDay).toNat
  let (year,month,dayOfMonth) := civil day
  yearText year ++ "-" ++ padded 2 month ++ "-" ++ padded 2 dayOfMonth ++ "T"
    ++ padded 2 (inDay/3600000) ++ ":" ++ padded 2 (inDay/60000%60) ++ ":"
    ++ padded 2 (inDay/1000%60) ++ "." ++ padded 3 (inDay%1000) ++ "Z"

end ImportResolution.Timestamp
