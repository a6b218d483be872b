namespace GeoLang

def programName : String := "tanglaw"

def version : String := "0.1.0-alpha.1"

end GeoLang
